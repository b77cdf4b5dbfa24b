import P4estTnodes.SortSpec
import P4estTnodes.System

/-!
# One process up to the exchange: the closed form after `sort_peers`

A process enters the numbering as the traversal leaves it (`Traversed`): its candidates are
registered, with the smallest contributor rank as owner, and nothing is counted yet. Every
traversal leaves it so (`traverse_traversed`): each statement of a callback keeps the
registration invariant of `node_register` (`RegInv.runAction_step`), since the candidate indices
a callback passes come from its own earlier registrations. This file then composes the closed
forms of `owned_query_reply`, `post_query_reply`, `sort_allgather` and `sort_peers` into the
state the exchange starts from:

* `Traversed.phase2At`: the owned candidates numbered by owner slot (`ownedOrder`), the prefix
  sums of the gathered counts, and one peer record per sharing rank, in posted form, with
  `shacumul` the count sum of the lower peers of smaller rank (`Phase2At`);
* `Traversed.peerOf_querypos`: the query towards a lower rank lists the owner slots of the
  candidates that rank owns;
* `counts_eq`: the count a process contributes to the `Allgather` is its number of owned
  candidates.
-/

namespace P4estTnodes

/-- A process as the traversal leaves it: every candidate registered with its owner, a ghost
layer, and none of the bookkeeping of the numbering started.
Source: `p4est_tnodes_new` (part_000 ll. 1435–1508)
Kind: D -/
structure Traversed (m : TnodesMeta) : Prop where
  /-- Every candidate has distinct contributor ranks and its smallest rank as owner. -/
  registered : ∀ c < m.construct.length, (m.construct.getD c default).Registered
  /-- The ghost layer exists. -/
  ghost : m.ghost ≠ none
  /-- Nothing is sorted, counted, peered or posted yet. -/
  ownsort : m.ownsort = []
  numOwned : m.numOwned = 0
  numShared : m.numShared = 0
  peers : m.peers = []
  sortp : m.sortp = []
  emptypeers : m.emptypeers = 0
  pereq : m.pereq = []

instance (m : TnodesMeta) : Decidable (Traversed m) :=
  decidable_of_iff ((∀ c < m.construct.length, (m.construct.getD c default).Registered) ∧
      m.ghost ≠ none ∧ m.ownsort = [] ∧ m.numOwned = 0 ∧ m.numShared = 0 ∧ m.peers = [] ∧
      m.sortp = [] ∧ m.emptypeers = 0 ∧ m.pereq = [])
    ⟨fun ⟨h1, h2, h3, h4, h5, h6, h7, h8, h9⟩ => ⟨h1, h2, h3, h4, h5, h6, h7, h8, h9⟩,
      fun ⟨h1, h2, h3, h4, h5, h6, h7, h8, h9⟩ => ⟨h1, h2, h3, h4, h5, h6, h7, h8, h9⟩⟩

/-! ## The traversal leaves a process `Traversed` -/

/-- The registration invariant of the construction table during the traversal: every candidate
is right for the registrations it has received (`CnodeInv`, through the table invariant of
`nodeRegister_run`), and every candidate has received one, as `node_register` registers the
candidate it creates.
Source: `node_register` (part_000 ll. 318–423)
Kind: D -/
def RegInv (cs : List Cnode) : Prop :=
  ∃ hist : Nat → List Contr, TableInv cs hist ∧ ∀ c < cs.length, hist c ≠ []

/-- The candidate indices that a callback's variables (`lni`, `lnh[0]`, `lnh[1]`) hold lie in a
table of `n` candidates.
Source: `iter_face1`, `iter_corner1` (part_000 ll. 532–698)
Kind: D -/
def VarsIn (vars : Nat → Option Nat) (n : Nat) : Prop := ∀ k i, vars k = some i → i < n

/-- The fields the numbering writes, and the ghost layer: no traversal statement writes them.
Source: none: infrastructure
Kind: D -/
def TnodesMeta.unnumbered (me : TnodesMeta) :
    Option (List (Nat × Nat)) × List Nat × Nat × Nat × List Peer × List Nat × Nat × List Req :=
  (me.ghost, me.ownsort, me.numOwned, me.numShared, me.peers, me.sortp, me.emptypeers, me.pereq)

section traversal

variable {me : TnodesMeta} {vars : Nat → Option Nat}

lemma VarsIn.mono {n n' : Nat} (h : VarsIn vars n) (hn : n ≤ n') : VarsIn vars n' :=
  fun k i hk => Nat.lt_of_lt_of_le (h k i hk) hn

lemma regInv_nil : RegInv [] :=
  ⟨fun _ => [], ⟨fun _ h => absurd h (Nat.not_lt_zero _), fun _ _ => rfl⟩,
    fun _ h => absurd h (Nat.not_lt_zero _)⟩

/-- Every candidate of a table with the invariant is registered.
Source: none: infrastructure
Kind: L -/
lemma RegInv.registered {cs : List Cnode} (h : RegInv cs) :
    ∀ c < cs.length, (cs.getD c default).Registered := fun c hc =>
  let ⟨_, hinv, hne⟩ := h
  (hinv.1 c hc).registered (hne c hc)

lemma le_nodeRegister_length (lni rank : Option Nat) (le nodene : Nat) (bcon : Bcon) :
    me.construct.length ≤ (nodeRegister me lni rank le nodene bcon).1.construct.length := by
  rw [nodeRegister_length]
  split_ifs <;> omega

/-- The candidate index a valid call returns lies in the table after the call. -/
lemma nodeRegister_snd_lt {lni : Option Nat} (rank : Option Nat) (le nodene : Nat) (bcon : Bcon)
    (hv : ∀ i, lni = some i → i < me.construct.length) :
    (nodeRegister me lni rank le nodene bcon).2 <
      (nodeRegister me lni rank le nodene bcon).1.construct.length := by
  rw [nodeRegister_snd, nodeRegister_length]
  cases lni with
  | none => exact Nat.lt_succ_self _
  | some j => exact hv j rfl

/-- **Step lemma of `node_register`.** A call with a valid candidate index keeps the invariant:
the candidate it touches, new or not, has received one more registration.
Source: `node_register` (part_000 ll. 318–423)
Kind: L -/
lemma RegInv.nodeRegister_step (h : RegInv me.construct) (lni rank : Option Nat) (le nodene : Nat)
    (bcon : Bcon) (hv : ∀ i, lni = some i → i < me.construct.length) :
    RegInv (nodeRegister me lni rank le nodene bcon).1.construct := by
  obtain ⟨hist, hinv, hne⟩ := h
  refine ⟨_, nodeRegister_tableInv hinv lni rank le nodene bcon hv, fun c hc => ?_⟩
  by_cases hci : lni.getD me.construct.length = c
  · rw [← hci, Function.update_same]
    exact List.append_ne_nil_of_right_ne_nil _ (List.cons_ne_nil _ _)
  · rw [Function.update_noteq (Ne.symm hci)]
    rw [nodeRegister_length] at hc
    cases lni with
    | none => exact hne c (by simp only [Option.getD_none] at hci; simp at hc; omega)
    | some j => exact hne c (by simpa using hc)

/-- A registration through a callback variable keeps the invariant, and the candidate index it
writes back lies in the grown table.
Source: `node_register` (part_000 ll. 335–359)
Kind: L -/
lemma RegInv.register (h : RegInv me.construct) (hv : VarsIn vars me.construct.length)
    (arg : LniArg) (rank : Option Nat) (le nodene : Nat) (bcon : Bcon) :
    RegInv (nodeRegister me (arg.read vars) rank le nodene bcon).1.construct ∧
      VarsIn (arg.write vars (nodeRegister me (arg.read vars) rank le nodene bcon).2)
        (nodeRegister me (arg.read vars) rank le nodene bcon).1.construct.length := by
  have hread : ∀ i, arg.read vars = some i → i < me.construct.length := fun i hi => by
    cases arg with
    | null => cases hi
    | var k => exact hv k i hi
  have hlen := @le_nodeRegister_length me (arg.read vars) rank le nodene bcon
  refine ⟨h.nodeRegister_step _ rank le nodene bcon hread, ?_⟩
  cases arg with
  | null => exact hv.mono hlen
  | var k =>
    intro k' i hk'
    rw [LniArg.write, Function.update_apply] at hk'
    split_ifs at hk'
    · obtain rfl := Option.some_inj.mp hk'
      exact nodeRegister_snd_lt rank le nodene bcon hread
    · exact Nat.lt_of_lt_of_le (hv k' i hk') hlen

lemma CnodeInv.setBcon {cn : Cnode} {h : List Contr} (hi : CnodeInv cn h) (b : Bcon) :
    CnodeInv { cn with bcon := b } h :=
  ⟨hi.nodup, hi.ranks, hi.minimal, hi.owner⟩

/-- `node_lfacetocorner` changes only the codimension of a candidate: it keeps the invariant.
Source: `node_lfacetocorner` (part_000 ll. 432–458)
Kind: L -/
lemma RegInv.lfacetocorner (h : RegInv me.construct) (le nodene : Nat) :
    RegInv (nodeLfacetocorner me le nodene).construct := by
  obtain ⟨hist, ⟨hin, hout⟩, hne⟩ := h
  have hlen : (nodeLfacetocorner me le nodene).construct.length = me.construct.length :=
    List.length_modify _ _ _
  refine ⟨hist, ⟨fun c hc => ?_, fun c hc => hout c (hlen ▸ hc)⟩, fun c hc => hne c (hlen ▸ hc)⟩
  rw [hlen] at hc
  have hc' := hin c hc
  rw [List.getD_eq_getElem _ _ hc] at hc'
  simp only [nodeLfacetocorner]
  rw [List.getD_eq_getElem _ _ (by rw [List.length_modify]; exact hc), List.getElem_modify]
  split_ifs
  · exact hc'.setBcon _
  · exact hc'

/-- The promotion's fresh registrations keep the invariant and grow the table.
Source: `iter_face1` (part_000 ll. 609–617)
Kind: L -/
lemma RegInv.foldl_lregisterNew (le : Nat) (bcon : Bcon) : ∀ (ns : List Nat) (me : TnodesMeta),
    RegInv me.construct →
      RegInv (ns.foldl (fun me n => lregisterNew me le n bcon) me).construct ∧
        me.construct.length ≤ (ns.foldl (fun me n => lregisterNew me le n bcon) me).construct.length
  | [], _, h => ⟨h, le_rfl⟩
  | n :: ns, me, h => by
    obtain ⟨h', hl⟩ := RegInv.foldl_lregisterNew le bcon ns _
      (h.nodeRegister_step none none le n bcon fun _ hi => by cases hi)
    exact ⟨h', le_trans (le_nodeRegister_length none none le n bcon) hl⟩

/-- **Step lemma of a statement.** Every statement of a callback keeps the invariant and the
callback's variables in the table.
Source: `node_lregister`, `node_gregister` (part_000 ll. 425–481), `iter_face1` (ll. 606–620)
Kind: L -/
lemma RegInv.runAction_step {st : TnodesMeta × (Nat → Option Nat)} (h : RegInv st.1.construct)
    (hv : VarsIn st.2 st.1.construct.length) (a : TAction) :
    RegInv (runAction st a).1.construct ∧
      VarsIn (runAction st a).2 (runAction st a).1.construct.length := by
  cases a with
  | lregister arg le nodene bcon => exact h.register hv arg none le nodene bcon
  | gregister arg g nodene bcon =>
    simp only [runAction]
    split
    · exact ⟨h, hv⟩
    · exact h.register hv arg _ _ nodene bcon
  | promote le =>
    simp only [runAction]
    split_ifs
    · exact ⟨h.nodeRegister_step none none le nCenter .corner (fun _ hi => by cases hi),
        hv.mono (le_nodeRegister_length none none le nCenter .corner)⟩
    · obtain ⟨h', hl⟩ := RegInv.foldl_lregisterNew le .face nCface _ (h.lfacetocorner le nCenter)
      exact ⟨h', hv.mono ((List.length_modify _ _ _).symm.trans_le hl)⟩
    · exact ⟨h, hv⟩
  | setConfiguration | setFaceBit | orFaceCode => exact ⟨h, hv⟩

/-- A callback's statements keep the invariant; its variables start at `-1`.
Source: `iter_volume1`, `iter_face1`, `iter_corner1` (part_000 ll. 484–698)
Kind: L -/
lemma RegInv.callback (h : RegInv me.construct) (acts : List TAction) :
    RegInv (runActions me acts).construct := by
  suffices ∀ st : TnodesMeta × (Nat → Option Nat), RegInv st.1.construct →
      VarsIn st.2 st.1.construct.length → RegInv (acts.foldl runAction st).1.construct from
    this _ h fun _ _ hk => by cases hk
  induction acts with
  | nil => exact fun _ h _ => h
  | cons a as ih => exact fun st h hv => ih _ (h.runAction_step hv a).1 (h.runAction_step hv a).2

/-- **Run lemma of a traversal.** Every sequence of events keeps the invariant.
Source: `p4est_tnodes_new` (part_000 l. 1492)
Kind: L -/
lemma RegInv.traverse (fc : Nat → Nat → Nat) :
    ∀ (evs : List Event) (me : TnodesMeta), RegInv me.construct →
      RegInv (P4estTnodes.traverse fc me evs).construct
  | [], _, h => h
  | ev :: evs, me, h => by
    refine RegInv.traverse fc evs _ ?_
    cases ev with
    | volume vi => exact @RegInv.callback { me with lenum := me.lenum + 1 } h _
    | face fi | corner sides => exact h.callback _

/-- No traversal statement writes the numbering's fields or the ghost layer.
Source: none: infrastructure
Kind: L -/
@[simp] lemma runAction_unnumbered (st : TnodesMeta × (Nat → Option Nat)) (a : TAction) :
    (runAction st a).1.unnumbered = st.1.unnumbered := by
  cases a with
  | gregister arg g nodene bcon =>
    simp only [runAction]
    split <;> rfl
  | promote le =>
    simp only [runAction]
    split_ifs <;> simp [nCface, TnodesMeta.unnumbered, lregisterNew, nodeRegister,
      nodeLfacetocorner]
  | _ => rfl

lemma foldl_runAction_unnumbered (acts : List TAction) :
    ∀ st : TnodesMeta × (Nat → Option Nat), (acts.foldl runAction st).1.unnumbered = st.1.unnumbered := by
  induction acts with
  | nil => exact fun _ => rfl
  | cons a as ih => exact fun st => (ih _).trans (runAction_unnumbered st a)

lemma traverse_unnumbered (fc : Nat → Nat → Nat) :
    ∀ (evs : List Event) (me : TnodesMeta),
      (P4estTnodes.traverse fc me evs).unnumbered = me.unnumbered
  | [], _ => rfl
  | ev :: evs, me => by
    have hev : (iterEvent fc me ev).unnumbered = me.unnumbered := by
      cases ev <;> exact foldl_runAction_unnumbered _ _
    exact (traverse_unnumbered fc evs _).trans hev

end traversal

/-- **The traversal leaves a process `Traversed`.** From the state `p4est_tnodes_new` sets up
with a ghost layer, every sequence of traversal events ends in a state whose candidates are all
registered, with distinct contributor ranks and the smallest of them as owner, and whose
numbering has not started. The candidate indices the callbacks pass to `node_register` come from
their own earlier registrations, so every call is valid, and `node_lfacetocorner` changes only a
codimension.
Source: `p4est_tnodes_new` (part_000 ll. 1435–1492), `node_register` (ll. 318–423)
Kind: P -/
theorem traverse_traversed (fc : Nat → Nat → Nat) (fullStyle withFaces : Bool)
    (mpisize mpirank : Nat) (gl : List (Nat × Nat)) (lel : Nat) (evs : List Event) :
    Traversed (traverse fc (TnodesMeta.init fullStyle withFaces mpisize mpirank (some gl) lel) evs) := by
  have hreg := RegInv.traverse fc evs
    (TnodesMeta.init fullStyle withFaces mpisize mpirank (some gl) lel) regInv_nil
  have hfr := traverse_unnumbered fc evs
    (TnodesMeta.init fullStyle withFaces mpisize mpirank (some gl) lel)
  simp only [TnodesMeta.unnumbered, Prod.mk.injEq] at hfr
  obtain ⟨hg, hs, hno, hns, hp, hsp, he, hpr⟩ := hfr
  exact ⟨hreg.registered, fun h => Option.some_ne_none gl (hg.symm.trans h), hs, hno, hns, hp, hsp,
    he, hpr⟩

/-- The owned candidates in the order `sort_allgather` numbers them: by owner slot.
Source: `sort_allgather` (part_000 ll. 832–841)
Kind: D -/
def ownedOrder (m : TnodesMeta) : List Nat :=
  (ownedBelow m m.construct.length).insertionSort (cnodeLe m.construct)

/-- The closed form of a process after `sort_allgather` and `sort_peers`, for the owned counts
`g` of all processes.
Source: none: closed form of `p4est_tnodes_new` before the exchange
Kind: D -/
structure Phase2At (me m : TnodesMeta) (g : Nat → Nat) : Prop where
  keeps : Keeps me m
  numOwned : m.numOwned = (ownedBelow me me.construct.length).length
  numShared : m.numShared = (sharedBelow me me.construct.length).length
  ownedCount : m.ownedCount = (ownedBelow me me.construct.length).length
  goffset : m.goffset = prefixSum g
  globalOffset : m.globalOffset = prefixSum g me.mpirank
  globalOwnedCount : m.globalOwnedCount = g
  runid : ∀ c < me.construct.length, me.ownerRank c = me.mpirank →
    (m.construct.getD c default).runid = (ownedOrder me).indexOf c
  sortp : m.sortp.Nodup ∧ ∀ j, j ∈ m.sortp ↔ j < m.peers.length
  ranks : (m.peers.map (·.rank)).Nodup ∧
    ∀ q, q ∈ m.peers.map (·.rank) ↔ PeerBelow me me.construct.length q
  peer : ∀ j < m.peers.length, ∃ s, m.peers.getD j default =
    { postedPeer me.mpirank (peerBelow me me.construct.length (m.peers.getD j default).rank) with
      shacumul := shacumulOf m.peers me.mpirank (m.peers.getD j default).rank, sharind := s }

/-! ## Peer records up to their buffers -/

@[simp] lemma postedPeer_rank (r : Nat) (p : Peer) : (postedPeer r p).rank = p.rank := by
  unfold postedPeer; split_ifs <;> rfl

@[simp] lemma postedPeer_bufcount (r : Nat) (p : Peer) : (postedPeer r p).bufcount = p.bufcount := by
  unfold postedPeer; split_ifs <;> rfl

@[simp] lemma postedPeer_sharedno (r : Nat) (p : Peer) : (postedPeer r p).sharedno = p.sharedno := by
  unfold postedPeer; split_ifs <;> rfl

@[simp] lemma postedPeer_remosort (r : Nat) (p : Peer) : (postedPeer r p).remosort = p.remosort := by
  unfold postedPeer; split_ifs <;> rfl

lemma map_eq_of_getD {α β : Type} [Inhabited α] (f : α → β) {l l' : List α}
    (hl : l'.length = l.length) (h : ∀ j < l.length, f (l'.getD j default) = f (l.getD j default)) :
    l'.map f = l.map f :=
  List.ext_getElem (by simp [hl]) fun j _ h2 => by
    have hj : j < l.length := by simpa using h2
    have := h j hj
    rw [List.getD_eq_getElem _ _ (hl ▸ hj), List.getD_eq_getElem _ _ hj] at this
    simpa only [List.getElem_map] using this

/-- `shacumulOf` reads the ranks and counts of the peer records only.
Source: none: infrastructure
Kind: L -/
lemma shacumulOf_congr (r q : Nat) : ∀ {ps ps' : List Peer},
    ps.map (fun p => (p.rank, p.bufcount)) = ps'.map (fun p => (p.rank, p.bufcount)) →
    shacumulOf ps r q = shacumulOf ps' r q
  | [], [], _ => rfl
  | [], _ :: _, h => absurd h (by simp)
  | _ :: _, [], h => absurd h (by simp)
  | p :: ps, p' :: ps', h => by
    simp only [List.map_cons, List.cons.injEq, Prod.mk.injEq] at h
    have ih := shacumulOf_congr r q h.2
    simp only [shacumulOf, List.filter_cons, h.1.1] at ih ⊢
    split_ifs
    · simp only [List.map_cons, List.sum_cons, ih, h.1.2]
    · exact ih

/-! ## The blocks of the lower peers -/

@[simp] lemma shacumulOf_nil (r q : Nat) : shacumulOf [] r q = 0 := rfl

lemma shacumulOf_cons (x : Peer) (xs : List Peer) (r q : Nat) :
    shacumulOf (x :: xs) r q =
      (if x.rank < q ∧ x.rank < r then x.bufcount else 0) + shacumulOf xs r q := by
  unfold shacumulOf
  by_cases h : x.rank < q ∧ x.rank < r
  · simp [List.filter_cons, h]
  · simp [List.filter_cons, h]

lemma shacumulOf_mono {r q q' : Nat} (hq : q ≤ q') : ∀ ps : List Peer,
    shacumulOf ps r q ≤ shacumulOf ps r q'
  | [] => le_rfl
  | x :: xs => by
    rw [shacumulOf_cons, shacumulOf_cons]
    have := @shacumulOf_mono r _ _ hq xs
    split_ifs <;> omega

/-- **The blocks follow each other.** The block of a lower peer ends where the blocks of the
higher ranks start.
Source: `sort_peers` (part_000 ll. 940–950)
Kind: L -/
lemma shacumulOf_add_le {r q : Nat} : ∀ {ps : List Peer} {p : Peer}, p ∈ ps →
    (ps.map (·.rank)).Nodup → p.rank < q → p.rank < r →
    shacumulOf ps r p.rank + p.bufcount ≤ shacumulOf ps r q
  | [], _, hp, _, _, _ => absurd hp (List.not_mem_nil _)
  | x :: xs, p, hp, hnd, hq, hr => by
    rw [List.map_cons, List.nodup_cons] at hnd
    rw [shacumulOf_cons, shacumulOf_cons]
    rcases List.mem_cons.mp hp with rfl | hp
    · have := @shacumulOf_mono r _ _ hq.le xs
      rw [if_neg (fun h => lt_irrefl _ h.1), if_pos ⟨hq, hr⟩]
      omega
    · have := shacumulOf_add_le hp hnd.2 hq hr
      have hne : x.rank ≠ p.rank := fun h => hnd.1 (h ▸ List.mem_map_of_mem _ hp)
      split_ifs <;> omega

lemma length_filter_or {α : Type} (P Q : α → Prop) [DecidablePred P] [DecidablePred Q] :
    ∀ l : List α, (∀ x ∈ l, ¬ (P x ∧ Q x)) →
      (l.filter fun x => P x ∨ Q x).length = (l.filter P).length + (l.filter Q).length
  | [], _ => rfl
  | x :: l, h => by
    have ih := length_filter_or P Q l fun y hy => h y (.tail _ hy)
    have hx := h x (.head _)
    by_cases hp : P x <;> by_cases hq : Q x <;> simp_all [List.filter_cons] <;> omega

/-- Counting by key: the elements whose key lies in `qs` are counted key by key.
Source: none: infrastructure
Kind: L -/
lemma sum_length_filter_key {α : Type} (l : List α) (A : α → Prop) [DecidablePred A]
    (f : α → Nat) : ∀ qs : List Nat, qs.Nodup →
      (qs.map fun q => (l.filter fun x => A x ∧ f x = q).length).sum =
        (l.filter fun x => A x ∧ f x ∈ qs).length
  | [], _ => by simp
  | q :: qs, hnd => by
    rw [List.nodup_cons] at hnd
    rw [List.map_cons, List.sum_cons, sum_length_filter_key l A f qs hnd.2,
      ← length_filter_or (fun x => A x ∧ f x = q) (fun x => A x ∧ f x ∈ qs) l
        fun x _ hx => hnd.1 (hx.1.2 ▸ hx.2.2)]
    congr 1
    exact List.filter_congr fun x _ => by simp [and_or_left]

lemma shacumulOf_self_eq (r : Nat) : ∀ ps : List Peer,
    shacumulOf ps r r = (ps.map fun p => if p.rank < r then p.bufcount else 0).sum
  | [] => rfl
  | p :: ps => by
    simp only [shacumulOf_cons, shacumulOf_self_eq r ps, List.map_cons, List.sum_cons, and_self]

/-! ## `sort_peers` as a frame -/

lemma sortPeers_frame (m : TnodesMeta) : ∃ sp ps sh ls,
    sortPeers m = { m with sortp := sp, peers := ps, sharers := sh, locsharer := ls } := by
  by_cases hc : m.ghost = none ∨ m.peers = []
  · exact ⟨m.sortp, m.peers, m.sharers, m.locsharer, by unfold sortPeers; rw [if_pos hc]⟩
  · rw [not_or] at hc
    rw [sortPeers_eq m hc.1 hc.2]
    exact ⟨_, _, _, _, rfl⟩

lemma keeps_sortPeers (m : TnodesMeta) : Keeps m (sortPeers m) := by
  obtain ⟨_, _, _, _, e⟩ := sortPeers_frame m
  rw [e]
  exact ⟨rfl, rfl, rfl, rfl, rfl⟩

/-- **What `sort_peers` leaves.** The peer records keep their order, ranks and counts and get
their `shacumul`; `sortp` lists every index once.
Source: `sort_peers` (part_000 ll. 922–977)
Kind: L -/
lemma sortPeers_spec (m : TnodesMeta) (hg : m.ghost ≠ none) (hnd : (m.peers.map (·.rank)).Nodup)
    (hsp : m.peers = [] → m.sortp = []) :
    (sortPeers m).peers.map (fun p => (p.rank, p.bufcount)) =
      m.peers.map (fun p => (p.rank, p.bufcount)) ∧
    ((sortPeers m).sortp.Nodup ∧ ∀ j, j ∈ (sortPeers m).sortp ↔ j < (sortPeers m).peers.length) ∧
    ∀ j < m.peers.length, ∃ s, (sortPeers m).peers.getD j default =
      { m.peers.getD j default with
        shacumul := shacumulOf (sortPeers m).peers m.mpirank (m.peers.getD j default).rank,
        sharind := s } := by
  by_cases hp : m.peers = []
  · have e : sortPeers m = m := by unfold sortPeers; rw [if_pos (.inr hp)]
    rw [e, hp, hsp hp]
    simp
  · obtain ⟨hl, hj⟩ := sortPeers_peers m hg hp hnd
    have hkey := map_eq_of_getD (fun p : Peer => (p.rank, p.bufcount)) hl fun j hj' => by
      rw [hj j hj']
    refine ⟨hkey, ?_, fun j hj' => ⟨((sortPeers m).peers.getD j default).sharind, ?_⟩⟩
    · rw [sortPeers_eq m hg hp, hl]
      exact ⟨(List.perm_insertionSort _ _).nodup_iff.mpr (List.nodup_range _), fun j => by
        rw [(List.perm_insertionSort _ _).mem_iff, List.mem_range]⟩
    · rw [hj j hj', shacumulOf_congr _ _ hkey]

lemma Keeps.cnodeLe {m m' : TnodesMeta} (h : Keeps m m') :
    cnodeLe m'.construct = cnodeLe m.construct := by
  funext a b
  simp only [P4estTnodes.cnodeLe, h.slotKey]

lemma insertionSort_congr_rel {α : Type} {R R' : α → α → Prop} [i : DecidableRel R]
    [i' : DecidableRel R'] (h : R = R') (l : List α) : l.insertionSort R = l.insertionSort R' := by
  subst h
  rw [Subsingleton.elim i i']

lemma getD_map_of_lt {α β : Type} [Inhabited α] [Inhabited β] (f : α → β) {l : List α}
    {j : Nat} (hj : j < l.length) : (l.map f).getD j default = f (l.getD j default) := by
  rw [List.getD_eq_getElem _ _ (by simpa using hj), List.getD_eq_getElem _ _ hj, List.getElem_map]

namespace Phase2At

variable {me m : TnodesMeta} {g : Nat → Nat} (h : Phase2At me m g) {j : Nat}
  (hj : j < m.peers.length)
include h hj

lemma sharedno : (m.peers.getD j default).sharedno =
    queriedBelow me me.construct.length (m.peers.getD j default).rank := by
  obtain ⟨s, hs⟩ := h.peer j hj
  simpa [peerBelow] using congrArg Peer.sharedno hs

lemma remosort : (m.peers.getD j default).remosort =
    queriedBelow me me.construct.length (m.peers.getD j default).rank := by
  obtain ⟨s, hs⟩ := h.peer j hj
  simpa [peerBelow] using congrArg Peer.remosort hs

lemma bufcount : (m.peers.getD j default).bufcount =
    repliesBelow me me.construct.length (m.peers.getD j default).rank +
      (queriedBelow me me.construct.length (m.peers.getD j default).rank).length := by
  obtain ⟨s, hs⟩ := h.peer j hj
  simpa [peerBelow] using congrArg Peer.bufcount hs

lemma shacumul : (m.peers.getD j default).shacumul =
    shacumulOf m.peers me.mpirank (m.peers.getD j default).rank := by
  obtain ⟨s, hs⟩ := h.peer j hj
  simpa using congrArg Peer.shacumul hs

lemma rank_ne {j' : Nat} (hj' : j' < m.peers.length) (hne : j ≠ j') :
    (m.peers.getD j default).rank ≠ (m.peers.getD j' default).rank := fun he => by
  rw [List.getD_eq_getElem _ _ hj, List.getD_eq_getElem _ _ hj'] at he
  exact hne ((@List.Nodup.getElem_inj_iff _ _ h.ranks.1 j (by simpa using hj) j'
    (by simpa using hj')).mp (by simpa using he))

end Phase2At

namespace Traversed

variable {me : TnodesMeta} (h : Traversed me)
include h

lemma oqrAt : OqrAt me (ownedQueryReply me) me.construct.length :=
  ownedQueryReply_spec me h.registered h.ownsort h.numOwned h.numShared h.peers

lemma ownedQueryReply_sortp : (ownedQueryReply me).sortp = [] := by
  obtain ⟨_, _, _, _, _, _, _, e⟩ := ownedQueryReply_eq me
  rw [e]
  exact h.sortp

/-- After `post_query_reply`, every peer record is in its posted form.
Source: `post_query_reply` (part_000 ll. 979–1034)
Kind: L -/
lemma tnodesPhase1_eq : ∃ rq ep, tnodesPhase1 me = { ownedQueryReply me with
    peers := (ownedQueryReply me).peers.map (postedPeer me.mpirank), pereq := rq,
    emptypeers := ep } := by
  obtain ⟨ps, rq, ep, e⟩ := postQueryReply_eq (ownedQueryReply me)
  have hp := postQueryReply_peers (ownedQueryReply me) (by rw [h.oqrAt.keeps.ghost]; exact h.ghost)
  rw [e, h.oqrAt.keeps.mpirank] at hp
  have hp' : ps = _ := hp
  refine ⟨rq, ep, ?_⟩
  unfold tnodesPhase1
  rw [e, hp']

lemma tnodesPhase1_keeps : Keeps me (tnodesPhase1 me) := by
  obtain ⟨rq, ep, e⟩ := h.tnodesPhase1_eq
  have hk := h.oqrAt.keeps
  rw [e]
  exact ⟨hk.1, hk.2, hk.3, hk.4, hk.5⟩

lemma tnodesPhase1_numOwned :
    (tnodesPhase1 me).numOwned = (ownedBelow me me.construct.length).length := by
  obtain ⟨rq, ep, e⟩ := h.tnodesPhase1_eq
  rw [e]
  exact h.oqrAt.numOwned

/-- **The closed form before the exchange.** After `owned_query_reply`, `post_query_reply`,
`sort_allgather` with the owned counts `g` and `sort_peers`, a traversed process numbers its
owned candidates by owner slot, knows the prefix sums of `g`, and has one peer record per rank
it shares a candidate with, in posted form, with its `shacumul`.
Source: `p4est_tnodes_new` (part_000 ll. 1494–1507)
Kind: P -/
theorem phase2At (g : Nat → Nat) :
    Phase2At me (sortPeers (sortAllgather (tnodesPhase1 me) g)) g := by
  obtain ⟨rq, ep, e1⟩ := h.tnodesPhase1_eq
  have ho := h.oqrAt
  have hk1 := h.tnodesPhase1_keeps
  have e2 := sortAllgather_eq (tnodesPhase1 me) g
  have hk2 := hk1.trans (keeps_sortAllgather (tnodesPhase1 me) g)
  set m2 := sortAllgather (tnodesPhase1 me) g
  obtain ⟨sp, ps, sh, ls, e3⟩ := sortPeers_frame m2
  have hpeers : m2.peers = (ownedQueryReply me).peers.map (postedPeer me.mpirank) := by
    rw [e2, e1]
  have hranks : m2.peers.map (·.rank) = (ownedQueryReply me).peers.map (·.rank) := by
    rw [hpeers, List.map_map]
    exact List.map_congr_left fun p _ => postedPeer_rank _ p
  obtain ⟨hkey, hsp, hpj⟩ := sortPeers_spec m2 (by rw [hk2.ghost]; exact h.ghost)
    (hranks ▸ ho.peers.nodup) fun _ => by rw [e2, e1]; exact h.ownedQueryReply_sortp
  have hranks3 : (sortPeers m2).peers.map (·.rank) = m2.peers.map (·.rank) := by
    simpa [List.map_map] using congrArg (List.map Prod.fst) hkey
  have hl3 : (sortPeers m2).peers.length = m2.peers.length := by
    simpa using congrArg List.length hkey
  have hown : (tnodesPhase1 me).ownsort = ownedBelow me me.construct.length := by
    rw [e1]; exact ho.ownsort
  refine ⟨hk2.trans (keeps_sortPeers m2), ?_, ?_, ?_, ?_, ?_, ?_, fun c hc hoc => ?_, hsp, ?_,
    fun j hj => ?_⟩
  · rw [e3, e2, e1]; exact ho.numOwned
  · rw [e3, e2, e1]; exact ho.numShared
  · rw [e3, e2, e1]; exact ho.numOwned
  · rw [e3, e2]
  · rw [e3, e2, hk1.mpirank]
  · rw [e3, e2]
  · have hnd : (tnodesPhase1 me).ownsort.Nodup := hown ▸ (List.nodup_range _).filter _
    rw [e3]
    show ((sortAllgather (tnodesPhase1 me) g).construct.getD c default).runid = _
    rw [sortAllgather_runid _ _ hnd, hown, hk1.length, insertionSort_congr_rel hk1.cnodeLe,
      if_pos ⟨by
      simpa [ownedBelow] using ⟨hc, hoc⟩, hc⟩]
    rfl
  · rw [hranks3, hranks]
    exact ⟨ho.peers.nodup, ho.peers.mem⟩
  · rw [hl3] at hj
    have hjo : j < (ownedQueryReply me).peers.length := by simpa [hpeers] using hj
    obtain ⟨s, hs⟩ := hpj j hj
    have hm2j : m2.peers.getD j default = postedPeer me.mpirank
        (peerBelow me me.construct.length (m2.peers.getD j default).rank) := by
      rw [hpeers, getD_map_of_lt _ hjo, postedPeer_rank,
        ← ho.peers.eq _ (List.getD_eq_getElem _ _ hjo ▸ List.getElem_mem hjo)]
    refine ⟨s, ?_⟩
    rw [hs, hk2.mpirank]
    simp only
    rw [← hm2j]

/-- A lower rank contributes to none of the owned candidates: it gets no replies.
Source: `owned_query_reply` (part_000 ll. 769–776), with the owner rule of `node_register`
Kind: L -/
lemma repliesBelow_lower {q : Nat} (hq : q < me.mpirank) :
    repliesBelow me me.construct.length q = 0 := by
  rw [repliesBelow, List.length_eq_zero, List.filter_eq_nil_iff]
  intro c hc hc'
  simp only [List.mem_range, decide_eq_true_eq] at hc hc'
  have := (h.registered c hc).owner_le hc'.2.1
  rw [show (me.construct.getD c default).ownerContr.rank = me.mpirank from hc'.1] at this
  omega

/-- A remotely owned candidate with a local contributor is owned by a lower rank, which is a
peer, and is queried from it.
Source: `owned_query_reply` (part_000 ll. 781–815)
Kind: L -/
lemma sharedIn {c : Nat} (hc : c < me.construct.length) (hl : me.isLocal c)
    (ho : me.ownerRank c ≠ me.mpirank) :
    me.ownerRank c < me.mpirank ∧ PeerBelow me me.construct.length (me.ownerRank c) ∧
      c ∈ queriedBelow me me.construct.length (me.ownerRank c) :=
  ⟨lt_of_le_of_ne ((h.registered c hc).owner_le hl) ho,
    ⟨c, hc, hl, TnodesMeta.ownerRank_mem (h.registered c hc), ho⟩,
    List.mem_filter.mpr ⟨List.mem_range.mpr hc, by simp [hl, ho]⟩⟩

/-- **The query towards a lower rank** is the list of owner slots of the candidates it owns,
in table order.
Source: `owned_query_reply` (part_000 ll. 802–812), `post_query_reply` (ll. 1021–1026)
Kind: L -/
lemma peerOf_querypos {q : Nat} (hq : q < me.mpirank) :
    ((tnodesPhase1 me).peerOf q).querypos =
      (queriedBelow me me.construct.length q).map me.eposOf := by
  obtain ⟨rq, ep, e⟩ := h.tnodesPhase1_eq
  have ho := h.oqrAt
  have hfind : ((ownedQueryReply me).peers.map (postedPeer me.mpirank)).find? (·.rank == q) =
      ((ownedQueryReply me).peers.find? (·.rank == q)).map (postedPeer me.mpirank) := by
    simp only [List.find?_map, Function.comp_def, postedPeer_rank]
  unfold TnodesMeta.peerOf
  rw [e]
  dsimp only
  rw [hfind]
  cases hf : (ownedQueryReply me).peers.find? (·.rank == q) with
  | some p =>
    have hp := List.mem_of_find?_eq_some hf
    have hr : p.rank = q := by simpa using List.find?_some hf
    rw [Option.map_some', Option.getD_some, ho.peers.eq p hp, hr]
    unfold postedPeer
    split_ifs with h1 h2
    · rfl
    · exact absurd h2 (show ¬ q > me.mpirank by omega)
    · rfl
  | none =>
    rw [Option.map_none', Option.getD_none]
    show [] = _
    symm
    rw [List.map_eq_nil_iff, queriedBelow, List.filter_eq_nil_iff]
    intro c hc hq'
    simp only [List.mem_range, decide_eq_true_eq] at hc hq'
    have hpb : PeerBelow me me.construct.length q :=
      ⟨c, hc, hq'.1, hq'.2.2 ▸ TnodesMeta.ownerRank_mem (h.registered c hc), hq'.2.2 ▸ hq'.2.1⟩
    obtain ⟨p, hp, hpr⟩ := List.mem_map.mp ((ho.peers.mem q).mpr hpb)
    exact absurd (List.find?_eq_none.mp hf p hp) (by simp [hpr])

/-- A process queries no rank at or above its own: the owner of a shared node is the smallest
contributor, below the process.
Source: `owned_query_reply` (part_000 ll. 789–812), with the owner rule of `node_register`
Kind: L -/
lemma queriedBelow_of_le {q : Nat} (hq : me.mpirank ≤ q) :
    queriedBelow me me.construct.length q = [] := by
  rw [queriedBelow, List.filter_eq_nil_iff]
  intro c hc hc'
  simp only [List.mem_range, decide_eq_true_eq] at hc hc'
  have := (h.registered c hc).owner_le hc'.1
  rw [show (me.construct.getD c default).ownerContr.rank = me.ownerRank c from rfl] at this
  omega

/-- `sort_allgather` and `sort_peers` keep the ranks and counts of the peer records of
`owned_query_reply`.
Source: `sort_peers` (part_000 ll. 922–977)
Kind: L -/
lemma phase2_key (g : Nat → Nat) :
    (sortPeers (sortAllgather (tnodesPhase1 me) g)).peers.map (fun p => (p.rank, p.bufcount)) =
      (ownedQueryReply me).peers.map (fun p => (p.rank, p.bufcount)) := by
  obtain ⟨rq, ep, e1⟩ := h.tnodesPhase1_eq
  have hk2 := h.tnodesPhase1_keeps.trans (keeps_sortAllgather (tnodesPhase1 me) g)
  have hpeers : (sortAllgather (tnodesPhase1 me) g).peers =
      (ownedQueryReply me).peers.map (postedPeer me.mpirank) := by
    rw [sortAllgather_eq, e1]
  obtain ⟨hkey, -, -⟩ := sortPeers_spec _ (by rw [hk2.ghost]; exact h.ghost)
    (by simpa [hpeers, List.map_map, Function.comp_def] using h.oqrAt.peers.nodup)
    fun _ => by rw [sortAllgather_eq, e1]; exact h.ownedQueryReply_sortp
  rw [hkey, hpeers, List.map_map]
  exact List.map_congr_left fun p _ => by simp

/-- **The requests before the exchange.** After `sort_peers` every peer record has the request
`post_query_reply` posted for it, and the passive records are counted in `emptypeers`.
Source: `post_query_reply` (part_000 ll. 979–1034), `sort_allgather` (ll. 825–860),
`sort_peers` (ll. 922–977)
Kind: L -/
lemma phase2_pereq (g : Nat → Nat) :
    (sortPeers (sortAllgather (tnodesPhase1 me) g)).pereq =
      (sortPeers (sortAllgather (tnodesPhase1 me) g)).peers.map (postedReq me.mpirank) ∧
    (sortPeers (sortAllgather (tnodesPhase1 me) g)).emptypeers =
      ((sortPeers (sortAllgather (tnodesPhase1 me) g)).peers.filter (·.bufcount = 0)).length := by
  have hkey := h.phase2_key g
  have hreq : ∀ l : List Peer, l.map (postedReq me.mpirank) =
      (l.map fun p => (p.rank, p.bufcount)).map fun x =>
        if x.2 = 0 then Req.null else if x.1 > me.mpirank then .recv x.1 .query
        else .send x.1 .query := fun l => by
    simp [List.map_map, Function.comp_def, postedReq]
  have hcnt : ∀ l : List Peer, (l.filter (·.bufcount = 0)).length =
      (l.map fun p => (p.rank, p.bufcount)).countP fun x => x.2 = 0 := fun l => by
    simp [← List.countP_eq_length_filter, List.countP_map, Function.comp_def]
  have hpq : (sortPeers (sortAllgather (tnodesPhase1 me) g)).pereq = (tnodesPhase1 me).pereq ∧
      (sortPeers (sortAllgather (tnodesPhase1 me) g)).emptypeers = (tnodesPhase1 me).emptypeers := by
    obtain ⟨_, _, _, _, e3⟩ := sortPeers_frame (sortAllgather (tnodesPhase1 me) g)
    rw [e3]
    exact ⟨by rw [sortAllgather_eq], by rw [sortAllgather_eq]⟩
  rw [hpq.1, hpq.2, hreq, hcnt, hkey, ← hreq, ← hcnt]
  obtain ⟨_, _, _, _, _, _, _, eo⟩ := ownedQueryReply_eq me
  have hm : (ownedQueryReply me).mpirank = me.mpirank := by rw [eo]
  unfold tnodesPhase1
  by_cases hp : (ownedQueryReply me).peers = []
  · unfold postQueryReply
    rw [if_pos (.inr hp), hp, eo]
    exact ⟨h.pereq, h.emptypeers⟩
  · obtain ⟨e1, e2⟩ := postQueryReply_pereq _ (by rw [h.oqrAt.keeps.ghost]; exact h.ghost) hp
    rw [e1, e2, hm, eo]
    simp [h.emptypeers]

end Traversed

namespace Phase2At

variable {me m : TnodesMeta} {g : Nat → Nat} (h : Phase2At me m g)
include h

/-- **The blocks of the lower peers fill the shared-in range.** The counts of the lower peers
add up to the number of remotely owned candidates with a local contributor.
Source: `sort_peers` (part_000 ll. 940–950), `owned_query_reply` (ll. 802–815)
Kind: L -/
lemma shacumulOf_self (ht : Traversed me) :
    shacumulOf m.peers me.mpirank me.mpirank = (sharedBelow me me.construct.length).length := by
  have hq : ∀ p ∈ m.peers, (if p.rank < me.mpirank then p.bufcount else 0) =
      (queriedBelow me me.construct.length p.rank).length := fun p hp => by
    obtain ⟨j, hj, rfl⟩ := List.mem_iff_getElem.mp hp
    have hbc := h.bufcount hj
    rw [List.getD_eq_getElem _ _ hj] at hbc
    split_ifs with hr
    · rw [hbc, ht.repliesBelow_lower hr, Nat.zero_add]
    · rw [ht.queriedBelow_of_le (not_lt.mp hr)]
      rfl
  calc shacumulOf m.peers me.mpirank me.mpirank
      = (m.peers.map fun p => (queriedBelow me me.construct.length p.rank).length).sum := by
        rw [shacumulOf_self_eq, List.map_congr_left hq]
    _ = ((m.peers.map (·.rank)).map fun q => ((List.range me.construct.length).filter
          fun c => (me.isLocal c ∧ me.ownerRank c ≠ me.mpirank) ∧ me.ownerRank c = q).length).sum := by
        simp only [List.map_map, Function.comp_def, queriedBelow, and_assoc]
    _ = ((List.range me.construct.length).filter fun c =>
          (me.isLocal c ∧ me.ownerRank c ≠ me.mpirank) ∧ me.ownerRank c ∈ m.peers.map (·.rank)).length :=
        sum_length_filter_key _ _ _ _ h.ranks.1
    _ = (sharedBelow me me.construct.length).length := by
        refine congrArg List.length (List.filter_congr fun c hc => ?_)
        simp only [List.mem_range] at hc
        simp only [h.ranks.2, decide_eq_decide]
        exact ⟨fun h' => h'.1, fun h' => ⟨h', c, hc, h'.1, TnodesMeta.ownerRank_mem
          (ht.registered c hc), h'.2⟩⟩

/-- The state `post_query_reply` leaves a peer record in: `1` towards a higher rank, `3`
towards a lower one, `0` for a passive peer.
Source: `post_query_reply` (part_000 ll. 1003–1031)
Kind: L -/
lemma done {j : Nat} (hj : j < m.peers.length) : (m.peers.getD j default).done =
    if (m.peers.getD j default).bufcount = 0 then 0
    else if (m.peers.getD j default).rank > me.mpirank then 1 else 3 := by
  obtain ⟨s, hs⟩ := h.peer j hj
  generalize (m.peers.getD j default).rank = q at hs
  rw [hs]
  unfold postedPeer
  split_ifs <;> simp_all [peerBelow]

/-- The buffer of every peer record is `bufcount` long: the receive buffer towards a higher
rank, the query towards a lower one.
Source: `post_query_reply` (part_000 ll. 1010–1025), `owned_query_reply` (ll. 802–812)
Kind: L -/
lemma querypos_length (ht : Traversed me) {j : Nat} (hj : j < m.peers.length) :
    (m.peers.getD j default).querypos.length = (m.peers.getD j default).bufcount := by
  have hpb : PeerBelow me me.construct.length (m.peers.getD j default).rank :=
    (h.ranks.2 _).mp (List.mem_map_of_mem (·.rank) (List.getD_eq_getElem _ default hj ▸
      List.getElem_mem hj))
  obtain ⟨s, hs⟩ := h.peer j hj
  generalize (m.peers.getD j default).rank = q at hs hpb
  rw [hs]
  unfold postedPeer
  have hne : q ≠ me.mpirank := hpb.choose_spec.2.2.2
  split_ifs with h0 h1 <;> simp only [peerBelow, List.length_map, List.length_replicate] at h0 ⊢
  · omega
  · rw [ht.repliesBelow_lower (lt_of_le_of_ne (not_lt.mp (by simpa [peerBelow] using h1)) hne),
      Nat.zero_add]

end Phase2At

/-! ## The prefix sums of the owned counts -/

lemma prefixSum_mono (g : Nat → Nat) {a b : Nat} (h : a ≤ b) : prefixSum g a ≤ prefixSum g b := by
  induction b with
  | zero => rw [Nat.le_zero.mp h]
  | succ b ih =>
    rcases Nat.lt_or_eq_of_le h with h | rfl
    · exact (ih (Nat.le_of_lt_succ h)).trans (Nat.le_add_right _ _)
    · exact le_rfl

/-- The range of process `o` lies below the range of every higher process.
Source: `sort_allgather` (part_000 ll. 852–858)
Kind: L -/
lemma prefixSum_add_lt (g : Nat → Nat) {o o' i : Nat} (ho : o < o') (hi : i < g o) :
    prefixSum g o + i < prefixSum g o' :=
  lt_of_lt_of_le (by rw [prefixSum]; omega) (prefixSum_mono g ho)

/-- Offset and position determine each other: the ranges of the processes are disjoint.
Source: `sort_allgather` (part_000 ll. 852–858)
Kind: L -/
lemma prefixSum_add_inj (g : Nat → Nat) {o o' i i' : Nat} (hi : i < g o) (hi' : i' < g o')
    (h : prefixSum g o + i = prefixSum g o' + i') : o = o' ∧ i = i' := by
  rcases Nat.lt_trichotomy o o' with ho | rfl | ho
  · have := prefixSum_add_lt g ho hi; omega
  · exact ⟨rfl, by omega⟩
  · have := prefixSum_add_lt g ho hi'; omega

/-- The ranges of the processes below `P` cover `[0, prefixSum g P)`.
Source: `sort_allgather` (part_000 ll. 852–858)
Kind: L -/
lemma exists_prefixSum_block (g : Nat → Nat) {k : Nat} : ∀ {P : Nat}, k < prefixSum g P →
    ∃ o < P, prefixSum g o ≤ k ∧ k < prefixSum g o + g o
  | 0, hk => absurd hk (Nat.not_lt_zero _)
  | P + 1, hk => by
    by_cases h : k < prefixSum g P
    · obtain ⟨o, ho, h1, h2⟩ := exists_prefixSum_block g h
      exact ⟨o, Nat.lt_succ_of_lt ho, h1, h2⟩
    · exact ⟨P, Nat.lt_succ_self P, Nat.le_of_not_lt h, hk⟩

lemma Traversed.phase2 {ms : Nat → TnodesMeta} {r : Nat} (h : Traversed (ms r)) :
    Phase2At (ms r) (System.phase2 ms r) (System.counts ms) :=
  h.phase2At _

/-- The owned count each process contributes to the `Allgather`.
Source: `sort_allgather` (part_000 ll. 848–851)
Kind: L -/
lemma counts_eq {ms : Nat → TnodesMeta} {q : Nat} (h : Traversed (ms q)) :
    System.counts ms q = (ownedBelow (ms q) (ms q).construct.length).length :=
  h.tnodesPhase1_numOwned

lemma length_ownedOrder (m : TnodesMeta) :
    (ownedOrder m).length = (ownedBelow m m.construct.length).length :=
  List.length_insertionSort _ _

lemma counts_eq_length {ms : Nat → TnodesMeta} {q : Nat} (h : Traversed (ms q)) :
    System.counts ms q = (ownedOrder (ms q)).length := by
  rw [counts_eq h, length_ownedOrder]

end P4estTnodes
