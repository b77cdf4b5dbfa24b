import P4estTnodes.Owned

/-!
# What `owned_query_reply` computes

`owned_query_reply` walks the construction table once. This file states in closed form what it
leaves, for a table whose candidates are right in the sense of `node_register` (pairwise
distinct contributor ranks, the owner the entry of minimal rank), on a process whose
bookkeeping is still empty:

* `ownsort` lists the candidates the process owns, in table order;
* there is one peer record for every rank `q ≠ me` that contributes to a candidate with a local
  contributor, and no other; its `bufcount` counts the owned candidates `q` contributes to plus
  the candidates `q` owns and the process contributes to, which are the ones queried from `q`,
  in table order, in `sharedno` and `remosort`, with their owner slots in `querypos`
  (`ownedQueryReply_spec`).

The peer records are described by rank: `PeersSpec l S spec` says that the ranks of `l` are
pairwise distinct, are those satisfying `S`, and that the record of rank `q` is `spec q`. The
steps `peer_access`, `peer_add_reply` and `peer_add_query` act on that description by updating
`spec` at one rank (`PeersSpec.accessModify`). Every step after the traversal keeps the
candidates up to their running ids, the rank, the slot layout and the element slots (`Keeps`).
-/

namespace P4estTnodes

/-! ## What the steps after the traversal keep -/

/-- A candidate without its running id.
Source: none: infrastructure
Kind: D -/
def Cnode.shape (cn : Cnode) : Bcon × Option Nat × List Contr := (cn.bcon, cn.owner, cn.contr)

/-- Equal shapes give equal candidates up to the running id at every index.
Source: none: infrastructure
Kind: L -/
lemma shape_getD {l l' : List Cnode} (h : l.map Cnode.shape = l'.map Cnode.shape) (c : Nat) :
    (l.getD c default).shape = (l'.getD c default).shape := by
  have h' : l[c]?.map Cnode.shape = l'[c]?.map Cnode.shape := by
    rw [← List.getElem?_map, ← List.getElem?_map, h]
  rw [List.getD_eq_getElem?_getD, List.getD_eq_getElem?_getD]
  cases hl : l[c]? <;> cases hl' : l'[c]? <;> simp_all

/-- The state `m'` keeps what the traversal left in `m`: the candidates up to their running
ids, the rank, the slot layout, the element slots and the ghost layer.
Source: none: infrastructure
Kind: D -/
structure Keeps (m m' : TnodesMeta) : Prop where
  /-- The candidates up to their running ids. -/
  shape : m'.construct.map Cnode.shape = m.construct.map Cnode.shape
  /-- The rank. -/
  mpirank : m'.mpirank = m.mpirank
  /-- The slot layout. -/
  withFaces : m'.withFaces = m.withFaces
  /-- The element slots. -/
  elementNodes : m'.elementNodes = m.elementNodes
  /-- The ghost layer. -/
  ghost : m'.ghost = m.ghost

namespace Keeps

variable {m m' m'' : TnodesMeta}

lemma refl (m : TnodesMeta) : Keeps m m := ⟨rfl, rfl, rfl, rfl, rfl⟩

lemma trans (h : Keeps m m') (h' : Keeps m' m'') : Keeps m m'' :=
  ⟨h'.shape.trans h.shape, h'.mpirank.trans h.mpirank, h'.withFaces.trans h.withFaces,
    h'.elementNodes.trans h.elementNodes, h'.ghost.trans h.ghost⟩

lemma length (h : Keeps m m') : m'.construct.length = m.construct.length := by
  simpa using congrArg List.length h.shape

lemma contr (h : Keeps m m') (c : Nat) :
    (m'.construct.getD c default).contr = (m.construct.getD c default).contr :=
  congrArg (·.2.2) (shape_getD h.shape c)

lemma owner (h : Keeps m m') (c : Nat) :
    (m'.construct.getD c default).owner = (m.construct.getD c default).owner :=
  congrArg (·.2.1) (shape_getD h.shape c)

lemma vnodes (h : Keeps m m') : m'.vnodes = m.vnodes := by
  simp only [TnodesMeta.vnodes, h.withFaces]

lemma ownerContr (h : Keeps m m') (c : Nat) :
    (m'.construct.getD c default).ownerContr = (m.construct.getD c default).ownerContr := by
  simp only [Cnode.ownerContr, h.contr, h.owner]

lemma ownerRank (h : Keeps m m') (c : Nat) : m'.ownerRank c = m.ownerRank c :=
  congrArg Contr.rank (h.ownerContr c)

lemma ranks (h : Keeps m m') (c : Nat) :
    (m'.construct.getD c default).ranks = (m.construct.getD c default).ranks := by
  simp only [Cnode.ranks, h.contr]

lemma isLocal (h : Keeps m m') (c : Nat) : m'.isLocal c ↔ m.isLocal c := by
  simp only [TnodesMeta.isLocal, h.ranks, h.mpirank]

lemma eposOf (h : Keeps m m') (c : Nat) : m'.eposOf c = m.eposOf c := by
  simp only [TnodesMeta.eposOf, h.ownerContr, h.vnodes]

lemma slotKey (h : Keeps m m') (c : Nat) : slotKey m'.construct c = slotKey m.construct c := by
  simp only [P4estTnodes.slotKey, h.ownerContr]

end Keeps

/-- Setting a running id changes one candidate's running id only.
Source: none: infrastructure
Kind: L -/
lemma TnodesMeta.setRunid_getD (me : TnodesMeta) (c : Nat) (v : Int) (d : Nat) :
    ((me.setRunid c v).construct.getD d default).runid =
      if c = d ∧ d < me.construct.length then v else (me.construct.getD d default).runid := by
  simp only [TnodesMeta.setRunid, List.getD_eq_getElem?_getD, List.getElem?_modify]
  by_cases hd : d < me.construct.length
  · rw [List.getElem?_eq_getElem hd]
    by_cases h : c = d <;> simp [h, hd]
  · rw [List.getElem?_eq_none (by omega)]
    simp [hd]

lemma keeps_setRunid (me : TnodesMeta) (c : Nat) (v : Int) : Keeps me (me.setRunid c v) := by
  refine ⟨?_, rfl, rfl, rfl, rfl⟩
  apply List.ext_getElem?
  intro d
  simp only [List.getElem?_map, TnodesMeta.setRunid, List.getElem?_modify]
  cases me.construct[d]? <;> by_cases h : c = d <;> simp [h, Cnode.shape]

lemma Keeps.setRunid {me m : TnodesMeta} (h : Keeps me m) (c : Nat) (v : Int) :
    Keeps me (m.setRunid c v) :=
  h.trans (keeps_setRunid m c v)

/-! ## The peer records by rank -/

/-- The peer records `l` are, by rank, the records `spec q` of the ranks `q` with `S q`.
Source: none: abstract model of `peers` with its lookup table `proc_peer`
Kind: D -/
structure PeersSpec (l : List Peer) (S : Nat → Prop) (spec : Nat → Peer) : Prop where
  /-- One record per rank. -/
  nodup : (l.map (·.rank)).Nodup
  /-- The ranks with a record. -/
  mem : ∀ q, q ∈ l.map (·.rank) ↔ S q
  /-- The record of each rank. -/
  eq : ∀ p ∈ l, p = spec p.rank

lemma TnodesMeta.hasPeer_iff (me : TnodesMeta) (q : Nat) :
    me.hasPeer q = true ↔ q ∈ me.peers.map (·.rank) := by
  simp [TnodesMeta.hasPeer]

lemma peerAccess_eq (me : TnodesMeta) (q : Nat) :
    peerAccess me q =
      { me with peers := if me.hasPeer q then me.peers else me.peers ++ [Peer.new q] } := by
  unfold peerAccess
  split_ifs <;> rfl

namespace PeersSpec

variable {l : List Peer} {S : Nat → Prop} {spec : Nat → Peer}

/-- Only the records of the ranks in `S` matter.
Source: none: infrastructure
Kind: L -/
lemma congr (h : PeersSpec l S spec) {S' : Nat → Prop} {spec' : Nat → Peer}
    (hS : ∀ q, S q ↔ S' q) (hspec : ∀ q, S q → spec q = spec' q) : PeersSpec l S' spec' :=
  ⟨h.nodup, fun q => (h.mem q).trans (hS q), fun p hp =>
    (h.eq p hp).trans (hspec _ ((h.mem _).mp (List.mem_map_of_mem _ hp)))⟩

/-- `peer_access q`: the record of `q` exists afterwards, new records are `Peer.new`.
Source: `peer_access` (part_000 ll. 200–230)
Kind: L -/
lemma access {me : TnodesMeta} (h : PeersSpec me.peers S spec) (q : Nat)
    (hnew : ¬ S q → spec q = Peer.new q) :
    PeersSpec (peerAccess me q).peers (fun q' => S q' ∨ q' = q) spec := by
  rw [peerAccess_eq]
  split_ifs with hq
  · rw [TnodesMeta.hasPeer_iff, h.mem] at hq
    exact h.congr (fun q' => ⟨.inl, fun h' => h'.elim id (· ▸ hq)⟩) fun _ _ => rfl
  · rw [TnodesMeta.hasPeer_iff] at hq
    have hS : ¬ S q := fun hS => hq ((h.mem q).mpr hS)
    refine ⟨?_, fun q' => ?_, fun p hp => ?_⟩
    · rw [List.map_append, List.nodup_append]
      exact ⟨h.nodup, List.nodup_singleton _, List.disjoint_singleton.mpr hq⟩
    · simp [h.mem, Peer.new]
    · rcases List.mem_append.mp hp with hp | hp
      · exact h.eq p hp
      · rw [List.mem_singleton.mp hp]
        exact (hnew hS).symm

/-- Changing the record of rank `q` by a rank-preserving `f`.
Source: the peer pointer `peer_access` returns
Kind: L -/
lemma modify {me : TnodesMeta} (h : PeersSpec me.peers S spec) (q : Nat) (f : Peer → Peer)
    (hf : ∀ p, (f p).rank = p.rank) :
    PeersSpec (me.modifyPeer q f).peers S (Function.update spec q (f (spec q))) := by
  have hr : (me.modifyPeer q f).peers.map (·.rank) = me.peers.map (·.rank) := by
    simp only [TnodesMeta.modifyPeer, List.map_map]
    congr 1
    funext p
    by_cases hp : p.rank = q <;> simp [hp, hf]
  refine ⟨hr ▸ h.nodup, fun q' => hr ▸ h.mem q', fun p hp => ?_⟩
  obtain ⟨p0, hp0, rfl⟩ := List.mem_map.mp hp
  by_cases hq : p0.rank = q
  · have h0 : p0 = spec q := hq ▸ h.eq p0 hp0
    rw [if_pos hq, hf, hq, Function.update_same, h0]
  · rw [if_neg hq, Function.update_noteq hq]
    exact h.eq p0 hp0

/-- `peer_access q` followed by a change of the record it returns.
Source: `peer_access`, `peer_add_reply`, `peer_add_query` (part_000 ll. 200–271)
Kind: L -/
lemma accessModify {me : TnodesMeta} (h : PeersSpec me.peers S spec) (q : Nat)
    (hnew : ¬ S q → spec q = Peer.new q) (f : Peer → Peer) (hf : ∀ p, (f p).rank = p.rank) :
    PeersSpec ((peerAccess me q).modifyPeer q f).peers (fun q' => S q' ∨ q' = q)
      (Function.update spec q (f (spec q))) :=
  (h.access q hnew).modify q f hf

end PeersSpec

/-- **Loop over the contributors of a candidate.** A loop that accesses the record of every
contributor satisfying `cond` and changes it by `g` changes, for contributor ranks pairwise
distinct, the record of each such rank once.
Source: `owned_query_reply` (part_000 ll. 769–776, 790–800)
Kind: L -/
lemma foldl_accessModify {r : Nat} (F : TnodesMeta → Contr → TnodesMeta) (cond : Contr → Prop)
    [DecidablePred cond] (g : Peer → Peer) (hg : ∀ p, (g p).rank = p.rank)
    (hF : ∀ m e, m.mpirank = r →
      F m e = if cond e then (peerAccess m e.rank).modifyPeer e.rank g else m) :
    ∀ (es : List Contr) (m : TnodesMeta) (S : Nat → Prop) (spec : Nat → Peer),
      m.mpirank = r → (es.map (·.rank)).Nodup → PeersSpec m.peers S spec →
      (∀ q, ¬ S q → spec q = Peer.new q) →
      ∃ ps, es.foldl F m = { m with peers := ps } ∧
        PeersSpec ps (fun q => S q ∨ ∃ e ∈ es, cond e ∧ e.rank = q)
          (fun q => if ∃ e ∈ es, cond e ∧ e.rank = q then g (spec q) else spec q)
  | [], m, S, spec, _, _, h, _ => ⟨m.peers, rfl, h.congr (by simp) (by simp)⟩
  | e :: es, m, S, spec, hm, hnd, h, hnew => by
    rw [List.map_cons, List.nodup_cons] at hnd
    have hne : ∀ e' ∈ es, e'.rank ≠ e.rank := fun e' he' hr =>
      hnd.1 (hr ▸ List.mem_map_of_mem _ he')
    rw [List.foldl_cons, hF m e hm]
    split_ifs with hc
    · have h1 := h.accessModify e.rank (hnew _) g hg
      obtain ⟨ps, hps, hspec⟩ := foldl_accessModify F cond g hg hF es _ _ _
        (by rw [peerAccess_eq]; exact hm) hnd.2 h1 (fun q hq => by
          rw [Function.update_noteq (fun h' => hq (.inr h'))]
          exact hnew q fun h' => hq (.inl h'))
      refine ⟨ps, by rw [hps, peerAccess_eq]; rfl, hspec.congr (fun q => ?_) fun q _ => ?_⟩
      · constructor
        · rintro ((hq | rfl) | ⟨e', he', hc', rfl⟩)
          exacts [.inl hq, .inr ⟨e, .head _, hc, rfl⟩, .inr ⟨e', .tail _ he', hc', rfl⟩]
        · rintro (hq | ⟨e', he', hc', rfl⟩)
          · exact .inl (.inl hq)
          · rcases List.mem_cons.mp he' with rfl | he'
            · exact .inl (.inr rfl)
            · exact .inr ⟨e', he', hc', rfl⟩
      · by_cases hq : q = e.rank
        · subst hq
          have : ¬ ∃ e' ∈ es, cond e' ∧ e'.rank = e.rank := fun ⟨e', he', _, hr⟩ => hne e' he' hr
          simp only [if_neg this, Function.update_same]
          rw [if_pos ⟨e, .head _, hc, rfl⟩]
        · have : (∃ e' ∈ e :: es, cond e' ∧ e'.rank = q) ↔ ∃ e' ∈ es, cond e' ∧ e'.rank = q :=
            ⟨fun ⟨e', he', hc', hr⟩ => (List.mem_cons.mp he').elim
              (fun h' => absurd (h' ▸ hr).symm hq) fun he' => ⟨e', he', hc', hr⟩,
              fun ⟨e', he', hc', hr⟩ => ⟨e', .tail _ he', hc', hr⟩⟩
          simp only [this, Function.update_noteq hq]
    · obtain ⟨ps, hps, hspec⟩ := foldl_accessModify F cond g hg hF es m S spec hm hnd.2 h hnew
      have : ∀ q, (∃ e' ∈ e :: es, cond e' ∧ e'.rank = q) ↔ ∃ e' ∈ es, cond e' ∧ e'.rank = q :=
        fun q => ⟨fun ⟨e', he', hc', hr⟩ => (List.mem_cons.mp he').elim
          (fun h' => absurd (h' ▸ hc') hc) fun he' => ⟨e', he', hc', hr⟩,
          fun ⟨e', he', hc', hr⟩ => ⟨e', .tail _ he', hc', hr⟩⟩
      exact ⟨ps, hps, hspec.congr (fun q => by rw [this]) fun q _ => by simp only [this]⟩

lemma ownedAddReplies_spec {m : TnodesMeta} {S : Nat → Prop} {spec : Nat → Peer}
    (contr : List Contr) (hnd : (contr.map (·.rank)).Nodup) (h : PeersSpec m.peers S spec)
    (hnew : ∀ q, ¬ S q → spec q = Peer.new q) :
    ∃ ps, ownedAddReplies m contr = { m with peers := ps } ∧
      PeersSpec ps (fun q => S q ∨ ∃ e ∈ contr, e.rank ≠ m.mpirank ∧ e.rank = q)
        (fun q => if ∃ e ∈ contr, e.rank ≠ m.mpirank ∧ e.rank = q then
          { spec q with bufcount := (spec q).bufcount + 1 } else spec q) :=
  foldl_accessModify _ (fun e => e.rank ≠ m.mpirank)
    (fun p => { p with bufcount := p.bufcount + 1 }) (fun _ => rfl)
    (fun m' e hm' => by simp only [hm']; rfl) contr m S spec rfl hnd h hnew

lemma remoteAddPassive_spec {m : TnodesMeta} {S : Nat → Prop} {spec : Nat → Peer}
    (contr : List Contr) (o : Nat) (hnd : (contr.map (·.rank)).Nodup)
    (h : PeersSpec m.peers S spec) (hnew : ∀ q, ¬ S q → spec q = Peer.new q) :
    ∃ ps, remoteAddPassive m contr o = { m with peers := ps } ∧
      PeersSpec ps (fun q => S q ∨ ∃ e ∈ contr, (e.rank ≠ m.mpirank ∧ e.rank ≠ o) ∧ e.rank = q)
        (fun q => if ∃ e ∈ contr, (e.rank ≠ m.mpirank ∧ e.rank ≠ o) ∧ e.rank = q then
          { spec q with passive := (spec q).passive + 1 } else spec q) :=
  foldl_accessModify _ (fun e => e.rank ≠ m.mpirank ∧ e.rank ≠ o)
    (fun p => { p with passive := p.passive + 1 }) (fun _ => rfl)
    (fun m' e hm' => by simp only [hm']) contr m S spec rfl hnd h hnew

lemma any_rank_iff (cn : Cnode) (r : Nat) : cn.contr.any (·.rank == r) = true ↔ r ∈ cn.ranks := by
  simp [Cnode.ranks]

lemma exists_contr_iff (cn : Cnode) (P : Nat → Prop) (q : Nat) :
    (∃ e ∈ cn.contr, P e.rank ∧ e.rank = q) ↔ q ∈ cn.ranks ∧ P q := by
  simp only [Cnode.ranks, List.mem_map]
  constructor
  · rintro ⟨e, he, hp, rfl⟩
    exact ⟨⟨e, he, rfl⟩, hp⟩
  · rintro ⟨⟨e, he, rfl⟩, hp⟩
    exact ⟨e, he, hp, rfl⟩

lemma exists_contr_ne_iff (cn : Cnode) (r q : Nat) :
    (∃ e ∈ cn.contr, e.rank ≠ r ∧ e.rank = q) ↔ q ∈ cn.ranks ∧ q ≠ r :=
  exists_contr_iff cn (· ≠ r) q

lemma exists_contr_ne_ne_iff (cn : Cnode) (r o q : Nat) :
    (∃ e ∈ cn.contr, (e.rank ≠ r ∧ e.rank ≠ o) ∧ e.rank = q) ↔ q ∈ cn.ranks ∧ q ≠ r ∧ q ≠ o :=
  exists_contr_iff cn (fun x => x ≠ r ∧ x ≠ o) q

/-! ## Registered candidates -/

/-- A candidate as `node_register` leaves it: pairwise distinct contributor ranks and an owner
index designating the entry of minimal rank.
Source: `check_node` (part_000 ll. 290–311)
Kind: D -/
def Cnode.Registered (cn : Cnode) : Prop :=
  cn.ranks.Nodup ∧ ∃ o, cn.owner = some o ∧ o < cn.contr.length ∧
    ∀ e ∈ cn.contr, (cn.contr.getD o default).rank ≤ e.rank

instance (cn : Cnode) : Decidable cn.Registered :=
  match h : cn.owner with
  | none => isFalse fun ⟨_, _, ho, _⟩ => by rw [h] at ho; cases ho
  | some o => decidable_of_iff (cn.ranks.Nodup ∧ o < cn.contr.length ∧
      ∀ e ∈ cn.contr, (cn.contr.getD o default).rank ≤ e.rank)
      ⟨fun ⟨hn, h'⟩ => ⟨hn, o, h, h'⟩, fun ⟨hn, o', ho, h'⟩ => by
        rw [h, Option.some_inj] at ho; exact ⟨hn, ho ▸ h'⟩⟩

/-- Every candidate that received a registration is registered in this sense.
Source: none: infrastructure
Kind: L -/
lemma CnodeInv.registered {cn : Cnode} {h : List Contr} (hinv : CnodeInv cn h) (hne : h ≠ []) :
    cn.Registered := by
  refine ⟨hinv.nodup, ?_⟩
  rcases hinv.owner with ⟨-, hc⟩ | ho
  · obtain ⟨e, he⟩ := List.exists_mem_of_ne_nil h hne
    exact absurd ((hinv.ranks e.rank).mpr ⟨e, he, rfl⟩) (by simp [hc])
  · exact ho

namespace Cnode.Registered

variable {cn : Cnode} (h : cn.Registered)
include h

lemma ownerContr_mem : cn.ownerContr ∈ cn.contr := by
  obtain ⟨-, o, hown, ho, -⟩ := h
  simp only [Cnode.ownerContr, hown, Option.getD_some, List.getD_eq_getElem _ _ ho]
  exact List.getElem_mem ho

lemma owner_mem_ranks : cn.ownerContr.rank ∈ cn.ranks :=
  List.mem_map_of_mem _ h.ownerContr_mem

lemma owner_le {q : Nat} (hq : q ∈ cn.ranks) : cn.ownerContr.rank ≤ q := by
  obtain ⟨-, o, hown, -, hmin⟩ := h
  obtain ⟨e, he, rfl⟩ := List.mem_map.mp hq
  simpa [Cnode.ownerContr, hown] using hmin e he

end Cnode.Registered

lemma TnodesMeta.ownerRank_mem {me : TnodesMeta} {c : Nat}
    (h : (me.construct.getD c default).Registered) :
    me.ownerRank c ∈ (me.construct.getD c default).ranks :=
  h.owner_mem_ranks

lemma TnodesMeta.isLocal_of_owned {me : TnodesMeta} {c : Nat}
    (h : (me.construct.getD c default).Registered) (ho : me.ownerRank c = me.mpirank) :
    me.isLocal c := by
  unfold TnodesMeta.isLocal
  rw [← ho]
  exact h.owner_mem_ranks

/-! ## `owned_query_reply` in closed form -/

section closedForm

variable (me : TnodesMeta)

/-- The owned candidates below `k`, in table order.
Source: none: closed form of `owned_query_reply`
Kind: D -/
def ownedBelow (k : Nat) : List Nat :=
  (List.range k).filter fun c => me.ownerRank c = me.mpirank

/-- The remotely owned candidates below `k` with a local contributor.
Source: none: closed form of `owned_query_reply`
Kind: D -/
def sharedBelow (k : Nat) : List Nat :=
  (List.range k).filter fun c => me.isLocal c ∧ me.ownerRank c ≠ me.mpirank

/-- The candidates below `k` queried from rank `q`: those with a local contributor that `q`
owns, for `q ≠ me`.
Source: none: closed form of `owned_query_reply`
Kind: D -/
def queriedBelow (k q : Nat) : List Nat :=
  (List.range k).filter fun c => me.isLocal c ∧ me.ownerRank c ≠ me.mpirank ∧ me.ownerRank c = q

/-- The number of owned candidates below `k` that rank `q ≠ me` contributes to: the query
entries `q` sends.
Source: none: closed form of `owned_query_reply`
Kind: D -/
def repliesBelow (k q : Nat) : Nat :=
  ((List.range k).filter fun c => me.ownerRank c = me.mpirank ∧
    q ∈ (me.construct.getD c default).ranks ∧ q ≠ me.mpirank).length

/-- The number of remotely owned candidates below `k` with a local contributor that a third
rank `q` contributes to.
Source: none: closed form of `owned_query_reply`
Kind: D -/
def passiveBelow (k q : Nat) : Nat :=
  ((List.range k).filter fun c => me.isLocal c ∧ me.ownerRank c ≠ me.mpirank ∧
    q ∈ (me.construct.getD c default).ranks ∧ q ≠ me.mpirank ∧ q ≠ me.ownerRank c).length

/-- Rank `q ≠ me` contributes to a candidate below `k` with a local contributor.
Source: none: closed form of `owned_query_reply`
Kind: D -/
def PeerBelow (k q : Nat) : Prop :=
  ∃ c < k, me.isLocal c ∧ q ∈ (me.construct.getD c default).ranks ∧ q ≠ me.mpirank

/-- The peer record of rank `q` after the candidates below `k`.
Source: none: closed form of `owned_query_reply`
Kind: D -/
def peerBelow (k q : Nat) : Peer where
  rank := q
  done := 0
  sharind := 0
  passive := passiveBelow me k q
  bufcount := repliesBelow me k q + (queriedBelow me k q).length
  shacumul := 0
  sharedno := queriedBelow me k q
  querypos := (queriedBelow me k q).map me.eposOf
  remosort := queriedBelow me k q

lemma filter_range_succ (p : Nat → Bool) (k : Nat) :
    (List.range (k + 1)).filter p = (List.range k).filter p ++ if p k then [k] else [] := by
  rw [List.range_succ, List.filter_append]
  cases h : p k <;> simp [h]

variable {me} {k : Nat}

/-- An owned candidate adds one reply towards each of its remote contributors.
Source: none: closed form of `owned_query_reply`
Kind: L -/
lemma peerBelow_succ_owned (ho : me.ownerRank k = me.mpirank) (q : Nat) :
    peerBelow me (k + 1) q =
      if q ∈ (me.construct.getD k default).ranks ∧ q ≠ me.mpirank then
        { peerBelow me k q with bufcount := (peerBelow me k q).bufcount + 1 }
      else peerBelow me k q := by
  by_cases hq : q ∈ (me.construct.getD k default).ranks ∧ q ≠ me.mpirank <;>
    simp only [List.getD_eq_getElem?_getD] at hq <;>
    simp [peerBelow, queriedBelow, repliesBelow, passiveBelow, filter_range_succ, ho, hq]
  omega

/-- A remotely owned candidate with a local contributor adds a query entry towards its owner
and one passive node towards each third contributor.
Source: none: closed form of `owned_query_reply`
Kind: L -/
lemma peerBelow_succ_remote (ho : me.ownerRank k ≠ me.mpirank) (hl : me.isLocal k) (q : Nat) :
    peerBelow me (k + 1) q =
      if q = me.ownerRank k then
        { peerBelow me k q with
          bufcount := (peerBelow me k q).bufcount + 1
          querypos := (peerBelow me k q).querypos ++ [me.eposOf k]
          sharedno := (peerBelow me k q).sharedno ++ [k]
          remosort := (peerBelow me k q).remosort ++ [k] }
      else if q ∈ (me.construct.getD k default).ranks ∧ q ≠ me.mpirank then
        { peerBelow me k q with passive := (peerBelow me k q).passive + 1 }
      else peerBelow me k q := by
  unfold TnodesMeta.isLocal at hl
  simp only [List.getD_eq_getElem?_getD] at hl
  by_cases hq : q = me.ownerRank k
  · subst hq
    simp [peerBelow, queriedBelow, repliesBelow, passiveBelow, filter_range_succ, ho, hl,
      TnodesMeta.isLocal]
    omega
  · by_cases hq' : q ∈ (me.construct.getD k default).ranks ∧ q ≠ me.mpirank <;>
      simp only [List.getD_eq_getElem?_getD] at hq' <;>
      simp [peerBelow, queriedBelow, repliesBelow, passiveBelow, filter_range_succ, ho, hl, hq,
        hq', Ne.symm hq, TnodesMeta.isLocal]

/-- A candidate without a local contributor adds nothing.
Source: none: closed form of `owned_query_reply`
Kind: L -/
lemma peerBelow_succ_nonlocal (ho : me.ownerRank k ≠ me.mpirank) (hl : ¬ me.isLocal k) :
    peerBelow me (k + 1) = peerBelow me k := by
  unfold TnodesMeta.isLocal at hl
  simp only [List.getD_eq_getElem?_getD] at hl
  funext q
  simp [peerBelow, queriedBelow, repliesBelow, passiveBelow, filter_range_succ, ho, hl,
    TnodesMeta.isLocal]

/-- A rank that shares no candidate below `k` has the record `peer_access` creates.
Source: none: closed form of `owned_query_reply`
Kind: L -/
lemma peerBelow_new (hreg : ∀ c < k, (me.construct.getD c default).Registered) {q : Nat}
    (hq : ¬ PeerBelow me k q) : peerBelow me k q = Peer.new q := by
  simp only [PeerBelow, not_exists, not_and] at hq
  have hrep : repliesBelow me k q = 0 := by
    simp only [repliesBelow, List.length_eq_zero, List.filter_eq_nil_iff, List.mem_range,
      decide_eq_true_eq]
    exact fun c hc ⟨ho, hqc, hqr⟩ => hq c hc (TnodesMeta.isLocal_of_owned (hreg c hc) ho) hqc hqr
  have hqry : queriedBelow me k q = [] := by
    simp only [queriedBelow, List.filter_eq_nil_iff, List.mem_range, decide_eq_true_eq]
    exact fun c hc ⟨hl, hor, hoq⟩ =>
      hq c hc hl (hoq ▸ TnodesMeta.ownerRank_mem (hreg c hc)) (hoq ▸ hor)
  have hpas : passiveBelow me k q = 0 := by
    simp only [passiveBelow, List.length_eq_zero, List.filter_eq_nil_iff, List.mem_range,
      decide_eq_true_eq]
    exact fun c hc ⟨hl, _, hqc, hqr, _⟩ => hq c hc hl hqc hqr
  simp [peerBelow, Peer.new, hrep, hqry, hpas]

/-- The ranks sharing a candidate below `k + 1`.
Source: none: closed form of `owned_query_reply`
Kind: L -/
lemma PeerBelow_succ (q : Nat) : PeerBelow me (k + 1) q ↔ PeerBelow me k q ∨
    (me.isLocal k ∧ q ∈ (me.construct.getD k default).ranks ∧ q ≠ me.mpirank) := by
  simp only [PeerBelow, Nat.lt_succ_iff_lt_or_eq, or_and_right, exists_or, exists_eq_left]

lemma ownedBelow_succ : ownedBelow me (k + 1) =
    ownedBelow me k ++ if me.ownerRank k = me.mpirank then [k] else [] := by
  simp [ownedBelow, filter_range_succ]

lemma sharedBelow_succ : sharedBelow me (k + 1) =
    sharedBelow me k ++ if me.isLocal k ∧ me.ownerRank k ≠ me.mpirank then [k] else [] := by
  simp [sharedBelow, filter_range_succ]

end closedForm

/-! ## The loop -/

/-- The loop body on an owned candidate.
Source: `owned_query_reply` (part_000 ll. 762–779)
Kind: L -/
lemma ownedQueryReplyNode_owned {m : TnodesMeta} {k : Nat} (ho : m.ownerRank k = m.mpirank) :
    ∃ n, ownedQueryReplyNode m k =
      { ownedAddReplies { m with ownsort := m.ownsort ++ [k], numOwned := m.numOwned + 1 }
          (m.construct.getD k default).contr with numOwnedShared := n }.setRunid k (-1) := by
  unfold ownedQueryReplyNode
  dsimp only
  rw [if_pos (show (m.construct.getD k default).ownerContr.rank = m.mpirank from ho)]
  split_ifs
  exacts [⟨_, rfl⟩, ⟨_, rfl⟩]

/-- The loop body on a remotely owned candidate with a local contributor.
Source: `owned_query_reply` (part_000 ll. 789–815)
Kind: L -/
lemma ownedQueryReplyNode_remote {m : TnodesMeta} {k : Nat} (ho : m.ownerRank k ≠ m.mpirank)
    (hl : m.isLocal k) :
    ownedQueryReplyNode m k =
      let me3 := (peerAddQuery (peerAccess (remoteAddPassive m (m.construct.getD k default).contr
        (m.ownerRank k)) (m.ownerRank k)) (m.ownerRank k) k (m.eposOf k)).modifyPeer
          (m.ownerRank k) fun p => { p with remosort := p.remosort ++ [k] }
      { me3 with numShared := me3.numShared + 1 }.setRunid k (-1) := by
  unfold ownedQueryReplyNode
  dsimp only
  rw [if_neg (show ¬(m.construct.getD k default).ownerContr.rank = m.mpirank from ho),
    (any_rank_iff _ _).mpr hl]
  simp only [Bool.not_true, Bool.false_eq_true, if_false]
  rfl

/-- The loop body on a candidate without a local contributor.
Source: `owned_query_reply` (part_000 ll. 781–788)
Kind: L -/
lemma ownedQueryReplyNode_nonlocal {m : TnodesMeta} {k : Nat} (ho : m.ownerRank k ≠ m.mpirank)
    (hl : ¬ m.isLocal k) : ownedQueryReplyNode m k = m.setRunid k (-1) := by
  unfold ownedQueryReplyNode
  dsimp only
  rw [if_neg (show ¬(m.construct.getD k default).ownerContr.rank = m.mpirank from ho),
    Bool.eq_false_iff.mpr (mt (any_rank_iff _ _).mp hl)]
  rfl

/-- The state of the loop of `owned_query_reply` once the candidates below `k` are handled.
Source: none: loop invariant of `owned_query_reply`
Kind: D -/
structure OqrAt (me m : TnodesMeta) (k : Nat) : Prop where
  keeps : Keeps me m
  ownsort : m.ownsort = ownedBelow me k
  numOwned : m.numOwned = (ownedBelow me k).length
  numShared : m.numShared = (sharedBelow me k).length
  peers : PeersSpec m.peers (PeerBelow me k) (peerBelow me k)

/-- The closed form holds before the loop on a process with empty bookkeeping.
Source: `owned_query_reply` (part_000 ll. 740–748)
Kind: L -/
lemma oqrAt_zero {me : TnodesMeta} (hos : me.ownsort = []) (hno : me.numOwned = 0)
    (hns : me.numShared = 0) (hp : me.peers = []) : OqrAt me me 0 :=
  ⟨.refl me, by simp [hos, ownedBelow], by simp [hno, ownedBelow], by simp [hns, sharedBelow],
    by rw [hp]; exact ⟨List.nodup_nil, fun q => by simp [PeerBelow], by simp⟩⟩

/-- **Step lemma.** The loop body on candidate `k` extends the closed form from `k` to `k + 1`.
Source: `owned_query_reply` (part_000 ll. 751–819)
Kind: L -/
lemma oqrAt_succ {me m : TnodesMeta} {k : Nat}
    (hreg : ∀ c ≤ k, (me.construct.getD c default).Registered) (h : OqrAt me m k) :
    OqrAt me (ownedQueryReplyNode m k) (k + 1) := by
  have hK := h.keeps
  have hnew : ∀ q, ¬ PeerBelow me k q → peerBelow me k q = Peer.new q :=
    fun q => peerBelow_new fun c hc => hreg c hc.le
  have hnd : ((m.construct.getD k default).contr.map (·.rank)).Nodup := by
    rw [hK.contr]; exact (hreg k le_rfl).1
  by_cases ho : me.ownerRank k = me.mpirank
  · have hl : me.isLocal k := TnodesMeta.isLocal_of_owned (hreg k le_rfl) ho
    obtain ⟨n, hn⟩ := ownedQueryReplyNode_owned (by rw [hK.ownerRank, hK.mpirank, ho])
    obtain ⟨ps, hps, hspec⟩ := @ownedAddReplies_spec
      { m with ownsort := m.ownsort ++ [k], numOwned := m.numOwned + 1 } _ _ _ hnd h.peers hnew
    rw [hn, hps]
    refine ⟨?_, ?_, ?_, ?_, ?_⟩
    · apply Keeps.setRunid
      exact ⟨hK.1, hK.2, hK.3, hK.4, hK.5⟩
    · show m.ownsort ++ [k] = _
      rw [h.ownsort, ownedBelow_succ, if_pos ho]
    · show m.numOwned + 1 = _
      rw [h.numOwned, ownedBelow_succ, if_pos ho, List.length_append, List.length_singleton]
    · show m.numShared = _
      rw [h.numShared, sharedBelow_succ, if_neg (fun h' => h'.2 ho), List.append_nil]
    · refine hspec.congr (fun q => ?_) fun q _ => ?_
      · simp only [hK.contr, exists_contr_ne_iff, PeerBelow_succ, hK.mpirank, hl, true_and]
      · simp only [hK.contr, exists_contr_ne_iff, peerBelow_succ_owned ho, hK.mpirank]
  · by_cases hl : me.isLocal k
    · have ho' : m.ownerRank k ≠ m.mpirank := by rw [hK.ownerRank, hK.mpirank]; exact ho
      have hom := TnodesMeta.ownerRank_mem (hreg k le_rfl)
      rw [ownedQueryReplyNode_remote ho' ((hK.isLocal k).mpr hl)]
      obtain ⟨ps, hps, hspec⟩ := remoteAddPassive_spec _ (m.ownerRank k) hnd h.peers hnew
      dsimp only
      rw [hps, hK.ownerRank k, hK.eposOf k]
      simp only [hK.contr, hK.ownerRank, hK.mpirank, exists_contr_ne_ne_iff] at hspec
      have hspec' := ((show PeersSpec ({ m with peers := ps } : TnodesMeta).peers _ _ from hspec).accessModify (me.ownerRank k)
        (fun hS => if_neg (fun hc => hS (.inr hc)) |>.trans (hnew _ fun h' => hS (.inl h')))
        (fun p => { p with bufcount := p.bufcount + 1, querypos := p.querypos ++ [me.eposOf k],
                           sharedno := p.sharedno ++ [k] }) fun _ => rfl).modify (me.ownerRank k)
        (fun p => { p with remosort := p.remosort ++ [k] }) fun _ => rfl
      rw [peerAccess_eq] at hspec' ⊢
      refine ⟨?_, ?_, ?_, ?_, ?_⟩
      · apply Keeps.setRunid
        exact ⟨hK.1, hK.2, hK.3, hK.4, hK.5⟩
      · show m.ownsort = _
        rw [h.ownsort, ownedBelow_succ, if_neg ho, List.append_nil]
      · show m.numOwned = _
        rw [h.numOwned, ownedBelow_succ, if_neg ho, List.append_nil]
      · show m.numShared + 1 = _
        rw [h.numShared, sharedBelow_succ, if_pos ⟨hl, ho⟩, List.length_append,
          List.length_singleton]
      · refine hspec'.congr (fun q => ?_) fun q _ => ?_
        · simp only [PeerBelow_succ, hl, true_and]
          by_cases hq : q = me.ownerRank k
          · exact iff_of_true (.inr hq) (.inr ⟨hq ▸ hom, hq ▸ ho⟩)
          · simp only [hq, ne_eq, not_false_eq_true, and_true, or_false]
        · rw [peerBelow_succ_remote ho hl]
          by_cases hq : q = me.ownerRank k
          · subst hq
            simp only [Function.update_same, ne_eq, not_true_eq_false, and_false, if_false,
              if_true]
          · simp only [Function.update_noteq hq, hq, if_false, ne_eq, not_false_eq_true, and_true]
    · rw [ownedQueryReplyNode_nonlocal (by rw [hK.ownerRank, hK.mpirank]; exact ho)
        ((hK.isLocal k).not.mpr hl)]
      refine ⟨hK.setRunid _ _, ?_, ?_, ?_, ?_⟩
      · show m.ownsort = _
        rw [h.ownsort, ownedBelow_succ, if_neg ho, List.append_nil]
      · show m.numOwned = _
        rw [h.numOwned, ownedBelow_succ, if_neg ho, List.append_nil]
      · show m.numShared = _
        rw [h.numShared, sharedBelow_succ, if_neg (fun h' => hl h'.1), List.append_nil]
      · refine h.peers.congr (fun q => ?_) fun q _ => ?_
        · simp only [PeerBelow_succ, hl, false_and, or_false]
        · rw [peerBelow_succ_nonlocal ho hl]

/-- **Run lemma.** The loop over the candidates below `k` ends in the closed form at `k`.
Source: `owned_query_reply` (part_000 ll. 751–819)
Kind: L -/
lemma oqrAt_range {me : TnodesMeta}
    (hreg : ∀ c < me.construct.length, (me.construct.getD c default).Registered)
    (h0 : OqrAt me me 0) :
    ∀ k ≤ me.construct.length, OqrAt me ((List.range k).foldl ownedQueryReplyNode me) k
  | 0, _ => h0
  | k + 1, hk => by
    rw [List.range_succ, List.foldl_append, List.foldl_cons, List.foldl_nil]
    exact oqrAt_succ (fun c hc => hreg c (by omega)) (oqrAt_range hreg h0 k (by omega))

/-- **What `owned_query_reply` computes.** On a process whose candidates are registered and
whose bookkeeping is empty, `owned_query_reply` keeps the candidates up to their running ids,
lists the owned candidates in `ownsort` in table order, counts them and the remotely owned
candidates with a local contributor, and leaves exactly one peer record per rank that shares
a candidate with a local contributor, the record `peerBelow` of its replies, queries and
passive nodes.
Source: `owned_query_reply` (part_000 ll. 729–823)
Kind: P -/
theorem ownedQueryReply_spec (me : TnodesMeta)
    (hreg : ∀ c < me.construct.length, (me.construct.getD c default).Registered)
    (hos : me.ownsort = []) (hno : me.numOwned = 0) (hns : me.numShared = 0)
    (hp : me.peers = []) :
    OqrAt me (ownedQueryReply me) me.construct.length :=
  let h := oqrAt_range hreg (oqrAt_zero hos hno hns hp) _ le_rfl
  ⟨⟨h.1.1, h.1.2, h.1.3, h.1.4, h.1.5⟩, h.2, h.3, h.4, h.5⟩

/-! ## Frame -/

/-- A loop whose body changes the peer records only changes the peer records only.
Source: none: infrastructure
Kind: L -/
lemma foldl_peersOnly {α : Type} (F : TnodesMeta → α → TnodesMeta)
    (hF : ∀ m a, ∃ ps, F m a = { m with peers := ps }) :
    ∀ (l : List α) (m : TnodesMeta), ∃ ps, l.foldl F m = { m with peers := ps }
  | [], m => ⟨m.peers, rfl⟩
  | a :: l, m => by
    obtain ⟨ps, e⟩ := hF m a
    obtain ⟨ps', e'⟩ := foldl_peersOnly F hF l (F m a)
    exact ⟨ps', by rw [List.foldl_cons, e', e]⟩

/-- The replies of an owned candidate change the peer records only.
Source: `owned_query_reply` (part_000 ll. 769–776)
Kind: L -/
lemma ownedAddReplies_eq (m : TnodesMeta) (contr : List Contr) :
    ∃ ps, ownedAddReplies m contr = { m with peers := ps } :=
  foldl_peersOnly _ (fun m c => by
    split_ifs
    · exact ⟨_, by rw [peerAddReply, peerAccess_eq]; rfl⟩
    · exact ⟨_, rfl⟩) contr m

/-- The passive counts of a remotely owned candidate change the peer records only.
Source: `owned_query_reply` (part_000 ll. 790–800)
Kind: L -/
lemma remoteAddPassive_eq (m : TnodesMeta) (contr : List Contr) (o : Nat) :
    ∃ ps, remoteAddPassive m contr o = { m with peers := ps } :=
  foldl_peersOnly _ (fun m c => by
    split_ifs
    · exact ⟨_, by rw [peerAccess_eq]; rfl⟩
    · exact ⟨_, rfl⟩) contr m

/-- **Frame of `owned_query_reply`.** It changes the candidates, the owned list, the counters
and the peer records, and nothing else.
Source: `owned_query_reply` (part_000 ll. 729–823)
Kind: L -/
lemma ownedQueryReply_eq (me : TnodesMeta) : ∃ cs os no nos ns nas ps,
    ownedQueryReply me = { me with
      construct := cs, ownsort := os, numOwned := no, numOwnedShared := nos, numShared := ns,
      numAllShared := nas, peers := ps } := by
  have hnode : ∀ (m : TnodesMeta) (k : Nat), ∃ cs os no nos ns ps, ownedQueryReplyNode m k =
      { m with
        construct := cs, ownsort := os, numOwned := no, numOwnedShared := nos, numShared := ns,
        peers := ps } := fun m k => by
    unfold ownedQueryReplyNode
    dsimp only
    split_ifs
    · obtain ⟨ps, e⟩ := ownedAddReplies_eq
        { m with ownsort := m.ownsort ++ [k], numOwned := m.numOwned + 1 }
        (m.construct.getD k default).contr
      rw [e]
      exact ⟨_, _, _, _, _, _, rfl⟩
    · obtain ⟨ps, e⟩ := ownedAddReplies_eq
        { m with ownsort := m.ownsort ++ [k], numOwned := m.numOwned + 1 }
        (m.construct.getD k default).contr
      rw [e]
      exact ⟨_, _, _, _, _, _, rfl⟩
    · exact ⟨_, _, _, _, _, _, rfl⟩
    · obtain ⟨ps, e⟩ := remoteAddPassive_eq m (m.construct.getD k default).contr _
      rw [e, peerAccess_eq]
      exact ⟨_, _, _, _, _, _, rfl⟩
  have hrun : ∀ (l : List Nat) (m : TnodesMeta), ∃ cs os no nos ns ps,
      l.foldl ownedQueryReplyNode m = { m with
        construct := cs, ownsort := os, numOwned := no, numOwnedShared := nos, numShared := ns,
        peers := ps } := by
    intro l
    induction l with
    | nil => exact fun m => ⟨_, _, _, _, _, _, rfl⟩
    | cons k l ih =>
      intro m
      obtain ⟨cs, os, no, nos, ns, ps, e⟩ := hnode m k
      obtain ⟨cs', os', no', nos', ns', ps', e'⟩ := ih (ownedQueryReplyNode m k)
      rw [List.foldl_cons, e', e]
      exact ⟨_, _, _, _, _, _, rfl⟩
  obtain ⟨cs, os, no, nos, ns, ps, e⟩ := hrun (List.range me.construct.length) me
  unfold ownedQueryReply
  dsimp only
  rw [e]
  exact ⟨_, _, _, _, _, _, _, rfl⟩

end P4estTnodes
