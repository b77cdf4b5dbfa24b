import P4estTnodes.SortSpec
import P4estTnodes.System

/-!
# The exchange of `wait_query_reply`: what one process computes

On each process, `wait_query_reply` answers the queries of the higher peers and processes the
replies of the lower peers. Processing the reply of the peer at index `j` (`processReply`) gives
every queried candidate the owner's number (`setReplied`), sorts the queried candidates by it,
stores each one's global number in `nonlocal_nodes` at `shacumul` plus its position and
renumbers it locally (`storeNonlocal`). This file states what that computes, for every reply
and every order of the peers:

* `processReply_runid`, `processReply_nonlocal`: one reply, under `ReplyReady` (the queried
  candidates are distinct and the reply has one distinct entry per candidate);
* `foldl_answerStep`: answering the queries changes the higher peers' buffers only;
* `Received.step` and `received_foldl`: the step and run lemmas of the receive loop, with the
  invariant `Received`, for peers whose candidates and blocks are disjoint (`ReceiveReady`);
* `exchange_received`: the exchange of the reference run on one process.

The positions are `replyPos`: the number of queried candidates of the same peer with a smaller
owner's number. Which hypotheses hold on the processes of one mesh, and what the numbers then
are globally, is the subject of the global numbering module.
-/

namespace P4estTnodes

/-! ## Giving the queried candidates the owner's numbers -/

/-- `setReplied` changes the candidates only.
Source: none: infrastructure
Kind: L -/
lemma setReplied_eq : ∀ (me : TnodesMeta) (xs : List (Nat × Int)),
    setReplied me xs = { me with construct := (setReplied me xs).construct }
  | _, [] => rfl
  | me, (c, v) :: xs => by rw [setReplied, setReplied_eq _ xs]; rfl

lemma keeps_setReplied : ∀ (me : TnodesMeta) (xs : List (Nat × Int)), Keeps me (setReplied me xs)
  | me, [] => .refl me
  | me, (c, v) :: xs => (keeps_setRunid me c v).trans (keeps_setReplied _ xs)

/-- `setReplied` gives each listed candidate its listed number.
Source: `wait_query_reply` (part_000 ll. 1131–1139)
Kind: L -/
lemma setReplied_runid : ∀ (cs : List Nat) (rep : List Int) (me : TnodesMeta) (d : Nat),
    cs.Nodup → cs.length = rep.length →
    ((setReplied me (cs.zip rep)).construct.getD d default).runid =
      if d ∈ cs ∧ d < me.construct.length then rep.getD (cs.indexOf d) 0
      else (me.construct.getD d default).runid
  | [], _, me, d, _, _ => by simp [setReplied]
  | c :: cs, [], _, _, _, h => absurd h (by simp)
  | c :: cs, v :: rep, me, d, hnd, hlen => by
    rw [List.nodup_cons] at hnd
    rw [List.zip_cons_cons, setReplied, setReplied_runid cs rep _ d hnd.2 (by simpa using hlen),
      TnodesMeta.setRunid_getD, (keeps_setRunid me c v).length]
    by_cases hdc : c = d
    · subst hdc
      simp [hnd.1, List.indexOf_cons_self]
    · by_cases hd : d ∈ cs ∧ d < me.construct.length
      · simp [hd, hdc, List.indexOf_cons_ne _ hdc]
      · simp only [hd, if_false, hdc, false_and, List.mem_cons, Ne.symm hdc, false_or]

/-! ## Storing the global numbers -/

/-- `storeNonlocal` changes the candidates and `nonlocal_nodes` only.
Source: none: infrastructure
Kind: L -/
lemma storeNonlocal_eq (gof : Int) (sh : Nat) : ∀ (me : TnodesMeta) (rs : List Nat) (lcl : Nat),
    storeNonlocal gof sh me rs lcl = { me with
      construct := (storeNonlocal gof sh me rs lcl).construct
      nonlocalNodes := (storeNonlocal gof sh me rs lcl).nonlocalNodes }
  | _, [], _ => rfl
  | me, c :: rs, lcl => by rw [storeNonlocal, storeNonlocal_eq gof sh _ rs]; rfl

lemma keeps_storeNonlocal (gof : Int) (sh : Nat) : ∀ (me : TnodesMeta) (rs : List Nat) (lcl : Nat),
    Keeps me (storeNonlocal gof sh me rs lcl)
  | me, [], _ => .refl me
  | me, c :: rs, lcl => by
    rw [storeNonlocal]
    refine Keeps.trans ?_ (keeps_storeNonlocal gof sh _ rs _)
    exact ⟨(keeps_setRunid me c _).1, rfl, rfl, rfl, rfl⟩

/-- `storeNonlocal` renumbers the `i`-th listed candidate `num_owned + shacumul + lcl + i`.
Source: `wait_query_reply` (part_000 ll. 1142–1162)
Kind: L -/
lemma storeNonlocal_runid (gof : Int) (sh : Nat) : ∀ (rs : List Nat) (me : TnodesMeta)
    (lcl d : Nat), rs.Nodup →
    ((storeNonlocal gof sh me rs lcl).construct.getD d default).runid =
      if d ∈ rs ∧ d < me.construct.length then
        ((me.numOwned + sh + lcl + rs.indexOf d : Nat) : Int)
      else (me.construct.getD d default).runid
  | [], me, lcl, d, _ => by simp [storeNonlocal]
  | c :: rs, me, lcl, d, hnd => by
    rw [List.nodup_cons] at hnd
    rw [storeNonlocal, storeNonlocal_runid gof sh rs _ _ d hnd.2, TnodesMeta.setRunid_getD,
      (keeps_setRunid _ c _).length]
    simp only [TnodesMeta.setRunid]
    by_cases hdc : c = d
    · subst hdc
      simp [hnd.1, List.indexOf_cons_self]
      omega
    · by_cases hd : d ∈ rs ∧ d < me.construct.length
      · simp [hd, hdc, List.indexOf_cons_ne _ hdc]
        omega
      · simp [hd, hdc, Ne.symm hdc]

/-- `storeNonlocal` stores the global number of the `i`-th listed candidate at
`shacumul + lcl + i` and leaves the other entries of `nonlocal_nodes`.
Source: `wait_query_reply` (part_000 ll. 1142–1162)
Kind: L -/
lemma storeNonlocal_nonlocal (gof : Int) (sh : Nat) : ∀ (rs : List Nat) (me : TnodesMeta)
    (lcl : Nat), rs.Nodup →
    (∀ c ∈ rs, (storeNonlocal gof sh me rs lcl).nonlocalNodes (sh + lcl + rs.indexOf c) =
      gof + (me.construct.getD c default).runid) ∧
    ∀ k, (k < sh + lcl ∨ sh + lcl + rs.length ≤ k) →
      (storeNonlocal gof sh me rs lcl).nonlocalNodes k = me.nonlocalNodes k
  | [], me, lcl, _ => ⟨by simp, fun _ _ => rfl⟩
  | c :: rs, me, lcl, hnd => by
    rw [List.nodup_cons] at hnd
    obtain ⟨ih1, ih2⟩ := storeNonlocal_nonlocal gof sh rs
      (TnodesMeta.setRunid { me with
          nonlocalNodes :=
            Function.update me.nonlocalNodes (sh + lcl) (gof + (me.construct.getD c default).runid) }
        c (me.numOwned + ((sh + lcl : Nat) : Int)))
      (lcl + 1) hnd.2
    simp only [storeNonlocal]
    refine ⟨fun c' hc' => ?_, fun k hk => ?_⟩
    · rcases List.mem_cons.mp hc' with rfl | hc'
      · rw [List.indexOf_cons_self, Nat.add_zero, ih2 _ (.inl (by omega))]
        simp [TnodesMeta.setRunid]
      · have hne : c ≠ c' := fun h => hnd.1 (h ▸ hc')
        rw [List.indexOf_cons_ne _ hne,
          show sh + lcl + (rs.indexOf c').succ = sh + (lcl + 1) + rs.indexOf c' by omega,
          ih1 c' hc', TnodesMeta.setRunid_getD, if_neg (fun h => hne h.1)]
    · rw [ih2 k (by simp at hk; omega)]
      simp only [TnodesMeta.setRunid]
      rw [Function.update_noteq (by simp at hk; omega)]

/-! ## One reply -/

/-- Sorting queried candidates with pairwise distinct numbers puts each at the number of
candidates with a smaller number.
Source: `wait_query_reply` (part_000 l. 1140)
Kind: L -/
lemma indexOf_insertionSort_rnodeLe (cs : List Cnode) (l : List Nat) (hnd : l.Nodup)
    (hinj : ∀ a ∈ l, ∀ b ∈ l,
      (cs.getD a default).runid = (cs.getD b default).runid → a = b) {c : Nat} (hc : c ∈ l) :
    (l.insertionSort (rnodeLe cs)).indexOf c =
      (l.filter fun a => (cs.getD a default).runid < (cs.getD c default).runid).length := by
  have hperm := List.perm_insertionSort (rnodeLe cs) l
  have hsorted : (l.insertionSort (rnodeLe cs)).Pairwise
      fun a b => (cs.getD a default).runid < (cs.getD b default).runid := by
    refine ((List.sorted_insertionSort (rnodeLe cs) l).and (hperm.nodup_iff.mpr hnd)).imp_of_mem
      fun {a b} ha hb ⟨hle, hne⟩ => lt_of_le_of_ne hle fun h' =>
        hne (hinj a (hperm.subset ha) b (hperm.subset hb) h')
  rw [indexOf_eq_length_filter (fun a b => (cs.getD a default).runid < (cs.getD b default).runid)
    (fun a => lt_irrefl _) (fun a b => lt_asymm) _ hsorted c (hperm.symm.subset hc)]
  exact (hperm.filter _).length_eq

/-- The owner's number that a reply gives the queried candidate `c`.
Source: `wait_query_reply` (part_000 ll. 1131–1139)
Kind: D -/
def replyValue (cs : List Nat) (reply : List Int) (c : Nat) : Int := reply.getD (cs.indexOf c) 0

/-- The position of the queried candidate `c` once the queried candidates are sorted by the
owner's numbers.
Source: `wait_query_reply` (part_000 l. 1140)
Kind: D -/
def replyPos (cs : List Nat) (reply : List Int) (c : Nat) : Nat :=
  (cs.filter fun a => replyValue cs reply a < replyValue cs reply c).length

/-- The peer record at index `j` holds a reply it can process: its queried candidates are
distinct candidates of the table, listed alike in `sharedno` and `remosort`, as many as
`bufcount`; the reply in `querypos` has one entry per candidate, pairwise distinct.
Source: none: precondition of `wait_query_reply` on a reply
Kind: D -/
structure ReplyReady (me : TnodesMeta) (j : Nat) : Prop where
  /-- The peer exists. -/
  index : j < me.peers.length
  /-- The queried candidates are distinct. -/
  nodup : (me.peers.getD j default).sharedno.Nodup
  /-- The queried candidates are in the table. -/
  lt : ∀ c ∈ (me.peers.getD j default).sharedno, c < me.construct.length
  /-- `remosort` lists the queried candidates as `sharedno` does. -/
  remosort : (me.peers.getD j default).remosort = (me.peers.getD j default).sharedno
  /-- `bufcount` counts the queried candidates. -/
  count : (me.peers.getD j default).sharedno.length = (me.peers.getD j default).bufcount
  /-- One reply entry per queried candidate. -/
  length : (me.peers.getD j default).querypos.length = (me.peers.getD j default).bufcount
  /-- The reply entries are pairwise distinct. -/
  inj : ∀ a ∈ (me.peers.getD j default).sharedno, ∀ b ∈ (me.peers.getD j default).sharedno,
    replyValue (me.peers.getD j default).sharedno (me.peers.getD j default).querypos a =
      replyValue (me.peers.getD j default).sharedno (me.peers.getD j default).querypos b →
        a = b

/-- Changing the peer records keeps the candidates and the slots.
Source: none: infrastructure
Kind: L -/
lemma Keeps.withPeers {m m' : TnodesMeta} (h : Keeps m m') (ps : List Peer) :
    Keeps m { m' with peers := ps } :=
  ⟨h.1, h.2, h.3, h.4, h.5⟩

section frames

variable (me : TnodesMeta) (xs : List (Nat × Int)) (gof : Int) (sh : Nat) (rs : List Nat)
  (lcl : Nat)

@[simp] lemma setReplied_peers : (setReplied me xs).peers = me.peers := by rw [setReplied_eq]
@[simp] lemma setReplied_numOwned : (setReplied me xs).numOwned = me.numOwned := by
  rw [setReplied_eq]
@[simp] lemma setReplied_nonlocalNodes : (setReplied me xs).nonlocalNodes = me.nonlocalNodes := by
  rw [setReplied_eq]
@[simp] lemma storeNonlocal_peers : (storeNonlocal gof sh me rs lcl).peers = me.peers := by
  rw [storeNonlocal_eq]
@[simp] lemma repliedState_peers (j : Nat) : (repliedState me j).peers = me.peers :=
  setReplied_peers _ _
@[simp] lemma repliedState_numOwned (j : Nat) : (repliedState me j).numOwned = me.numOwned :=
  setReplied_numOwned _ _
@[simp] lemma repliedState_nonlocalNodes (j : Nat) :
    (repliedState me j).nonlocalNodes = me.nonlocalNodes :=
  setReplied_nonlocalNodes _ _

lemma keeps_repliedState (j : Nat) : Keeps me (repliedState me j) := keeps_setReplied _ _

end frames

section processReply

variable {me : TnodesMeta} {j : Nat}

/-- Processing a reply changes the candidates, `nonlocal_nodes` and the peer records only.
Source: `wait_query_reply` (part_000 ll. 1127–1165)
Kind: L -/
lemma processReply_eq (me : TnodesMeta) (j : Nat) : ∃ cs nl ps,
    processReply me j = { me with construct := cs, nonlocalNodes := nl, peers := ps } := by
  unfold processReply repliedState
  dsimp only
  rw [storeNonlocal_eq, setReplied_eq]
  exact ⟨_, _, _, rfl⟩

lemma processReply_peers_length : (processReply me j).peers.length = me.peers.length := by
  simp [processReply]

lemma processReply_peers_ne {i : Nat} (hij : i ≠ j) :
    (processReply me j).peers.getD i default = me.peers.getD i default := by
  simp [processReply, getD_set, Ne.symm hij]

lemma processReply_peers_self (hj : j < me.peers.length) :
    ∃ rs, (processReply me j).peers.getD j default =
      { me.peers.getD j default with remosort := rs, done := 0 } := by
  simp only [processReply, storeNonlocal_peers, repliedState_peers, getD_set, and_self, hj,
    if_true]
  exact ⟨_, rfl⟩

lemma keeps_processReply : Keeps me (processReply me j) :=
  ((keeps_repliedState me j).trans (keeps_storeNonlocal _ _ _ _ 0)).withPeers _

end processReply

section ready

variable {me : TnodesMeta} {j : Nat} (h : ReplyReady me j)
include h

/-- The candidate numbers after `setReplied`: the reply on the queried candidates.
Source: `wait_query_reply` (part_000 ll. 1131–1139)
Kind: L -/
lemma ReplyReady.repliedState_runid (d : Nat) :
    ((repliedState me j).construct.getD d default).runid =
      if d ∈ (me.peers.getD j default).sharedno then
        replyValue (me.peers.getD j default).sharedno (me.peers.getD j default).querypos d
      else (me.construct.getD d default).runid := by
  unfold repliedState
  dsimp only
  rw [List.take_of_length_le (by rw [List.length_zip, h.count, h.length, Nat.min_self]),
    setReplied_runid _ _ _ _ h.nodup (h.count.trans h.length.symm)]
  by_cases hd : d ∈ (me.peers.getD j default).sharedno
  · simp only [hd, h.lt d hd, and_self, if_true]
    rfl
  · simp only [hd, false_and, if_false]

lemma ReplyReady.mem_sortedReplies (c : Nat) :
    c ∈ sortedReplies me j ↔ c ∈ (me.peers.getD j default).sharedno := by
  rw [sortedReplies, (List.perm_insertionSort _ _).mem_iff, h.remosort]

lemma ReplyReady.sortedReplies_nodup : (sortedReplies me j).Nodup :=
  (List.perm_insertionSort _ _).nodup_iff.mpr (h.remosort ▸ h.nodup)

lemma ReplyReady.sortedReplies_length :
    (sortedReplies me j).length = (me.peers.getD j default).bufcount := by
  rw [sortedReplies, List.length_insertionSort, h.remosort, h.count]

/-- The queried candidates sorted by the reply: each at its position `replyPos`.
Source: `wait_query_reply` (part_000 l. 1140)
Kind: L -/
lemma ReplyReady.indexOf_sortedReplies {c : Nat} (hc : c ∈ (me.peers.getD j default).sharedno) :
    (sortedReplies me j).indexOf c =
      replyPos (me.peers.getD j default).sharedno (me.peers.getD j default).querypos c := by
  have hmem : ∀ a, a ∈ (me.peers.getD j default).remosort ↔
      a ∈ (me.peers.getD j default).sharedno := fun a => by rw [h.remosort]
  rw [sortedReplies, indexOf_insertionSort_rnodeLe _ _ (h.remosort ▸ h.nodup)
    (fun a ha b hb hab => h.inj a ((hmem a).mp ha) b ((hmem b).mp hb) (by
      rwa [h.repliedState_runid, h.repliedState_runid, if_pos ((hmem a).mp ha),
        if_pos ((hmem b).mp hb)] at hab)) ((hmem c).mpr hc), h.remosort]
  exact congrArg List.length (List.filter_congr fun a ha => by
    rw [h.repliedState_runid, h.repliedState_runid, if_pos ha, if_pos hc])

/-- **The candidate numbers after a reply.** Every queried candidate gets the number
`num_owned + shacumul + i`, `i` its position in the order of the owner's numbers; the other
candidates keep theirs.
Source: `wait_query_reply` (part_000 ll. 1127–1165)
Kind: L -/
lemma processReply_runid (d : Nat) :
    ((processReply me j).construct.getD d default).runid =
      if d ∈ (me.peers.getD j default).sharedno then
        ((me.numOwned + (me.peers.getD j default).shacumul +
          replyPos (me.peers.getD j default).sharedno (me.peers.getD j default).querypos d : Nat) :
            Int)
      else (me.construct.getD d default).runid := by
  unfold processReply
  dsimp only
  rw [storeNonlocal_runid _ _ _ _ _ _ h.sortedReplies_nodup, (keeps_repliedState _ _).length]
  by_cases hd : d ∈ (me.peers.getD j default).sharedno
  · rw [if_pos ⟨(h.mem_sortedReplies d).mpr hd, h.lt d hd⟩, if_pos hd,
      h.indexOf_sortedReplies hd, repliedState_numOwned, Nat.add_zero]
  · rw [if_neg fun h' => hd ((h.mem_sortedReplies d).mp h'.1), if_neg hd,
      h.repliedState_runid, if_neg hd]

/-- **The global numbers after a reply.** The global number of each queried candidate, the
owner's offset plus the owner's number, is stored at `shacumul` plus its position; the other
entries of `nonlocal_nodes` stay.
Source: `wait_query_reply` (part_000 ll. 1142–1162)
Kind: L -/
lemma processReply_nonlocal :
    (∀ c ∈ (me.peers.getD j default).sharedno,
      (processReply me j).nonlocalNodes ((me.peers.getD j default).shacumul +
        replyPos (me.peers.getD j default).sharedno (me.peers.getD j default).querypos c) =
        me.goffset (me.peers.getD j default).rank +
          replyValue (me.peers.getD j default).sharedno (me.peers.getD j default).querypos c) ∧
    ∀ k, (k < (me.peers.getD j default).shacumul ∨
        (me.peers.getD j default).shacumul + (me.peers.getD j default).bufcount ≤ k) →
      (processReply me j).nonlocalNodes k = me.nonlocalNodes k := by
  unfold processReply
  dsimp only
  obtain ⟨h1, h2⟩ := storeNonlocal_nonlocal (me.goffset (me.peers.getD j default).rank)
    (me.peers.getD j default).shacumul _ (repliedState me j) 0 h.sortedReplies_nodup
  refine ⟨fun c hc => ?_, fun k hk => ?_⟩
  · have := h1 c ((h.mem_sortedReplies c).mpr hc)
    rwa [Nat.add_zero, h.indexOf_sortedReplies hc, h.repliedState_runid, if_pos hc] at this
  · rw [h2 k (by rwa [Nat.add_zero, h.sortedReplies_length]), repliedState_nonlocalNodes]

end ready

/-- Two peer records agree on rank, message count, offset and queried candidates.
Source: none: infrastructure
Kind: D -/
def Peer.SameCore (p q : Peer) : Prop :=
  q.rank = p.rank ∧ q.bufcount = p.bufcount ∧ q.shacumul = p.shacumul ∧ q.sharedno = p.sharedno

lemma Peer.SameCore.refl (p : Peer) : p.SameCore p := ⟨rfl, rfl, rfl, rfl⟩

lemma Peer.SameCore.trans {p q s : Peer} (h : p.SameCore q) (h' : q.SameCore s) : p.SameCore s :=
  ⟨h'.1.trans h.1, h'.2.1.trans h.2.1, h'.2.2.1.trans h.2.2.1, h'.2.2.2.trans h.2.2.2⟩

@[simp] lemma setQuerypos_construct (me : TnodesMeta) (j : Nat) (buf : List Int) :
    (me.setQuerypos j buf).construct = me.construct := rfl

@[simp] lemma setQuerypos_numOwned (me : TnodesMeta) (j : Nat) (buf : List Int) :
    (me.setQuerypos j buf).numOwned = me.numOwned := rfl

@[simp] lemma setQuerypos_goffset (me : TnodesMeta) (j : Nat) (buf : List Int) :
    (me.setQuerypos j buf).goffset = me.goffset := rfl

@[simp] lemma setQuerypos_peers_length (me : TnodesMeta) (j : Nat) (buf : List Int) :
    (me.setQuerypos j buf).peers.length = me.peers.length := List.length_set _ _ _

lemma setQuerypos_getD (me : TnodesMeta) (j : Nat) (buf : List Int) (i : Nat) :
    (me.setQuerypos j buf).peers.getD i default =
      if j = i ∧ i < me.peers.length then { me.peers.getD j default with querypos := buf }
      else me.peers.getD i default :=
  getD_set _ _ _ _ _

/-! ## Answering the queries -/

section answer

variable (ms : Nat → TnodesMeta) (r : Nat)

lemma answerStep_cases (acc : TnodesMeta) (j : Nat) :
    System.answerStep ms r acc j = acc ∨
      ((acc.peers.getD j default).bufcount ≠ 0 ∧ r < (acc.peers.getD j default).rank ∧
        ∃ qp, System.answerStep ms r acc j = { acc with peers := (acc.peers.set j
          { acc.peers.getD j default with querypos := qp, done := 0 }) }) := by
  unfold System.answerStep answerQuery
  dsimp only
  split_ifs with h
  · exact .inr ⟨h.1, h.2, _, rfl⟩
  · exact .inl rfl

/-- **Answering keeps the local numbering.** The answer loop changes the buffers and states of
the higher peers with messages only.
Source: `wait_query_reply` (part_000 ll. 1078–1114)
Kind: L -/
lemma foldl_answerStep : ∀ (is : List Nat) (m : TnodesMeta),
    is.foldl (System.answerStep ms r) m =
      { m with peers := (is.foldl (System.answerStep ms r) m).peers } ∧
    (is.foldl (System.answerStep ms r) m).peers.length = m.peers.length ∧
    (∀ i, ((m.peers.getD i default).bufcount = 0 ∨ (m.peers.getD i default).rank ≤ r) →
      (is.foldl (System.answerStep ms r) m).peers.getD i default = m.peers.getD i default) ∧
    ∀ i, (m.peers.getD i default).SameCore
      ((is.foldl (System.answerStep ms r) m).peers.getD i default)
  | [], m => ⟨rfl, rfl, fun _ _ => rfl, fun _ => .refl _⟩
  | j :: is, m => by
    obtain ⟨e1, l1, u1, c1⟩ := foldl_answerStep is (System.answerStep ms r m j)
    rw [List.foldl_cons]
    generalize List.foldl (System.answerStep ms r) (System.answerStep ms r m j) is = f at e1 l1 u1 c1 ⊢
    rcases answerStep_cases ms r m j with h | ⟨hb, hr, qp, h⟩
    · rw [h] at e1 l1 u1 c1
      exact ⟨e1, l1, u1, c1⟩
    · rw [h] at e1 l1 u1 c1
      have hgi := fun i => getD_set m.peers j i
        { m.peers.getD j default with querypos := qp, done := 0 } default
      refine ⟨e1, by rw [l1, List.length_set], fun i hi => ?_, fun i => ?_⟩
      · have hne : ¬ (j = i ∧ i < m.peers.length) := fun h' => by
          rw [← h'.1] at hi; omega
        rw [u1 i (by rw [hgi, if_neg hne]; exact hi), hgi, if_neg hne]
      · refine Peer.SameCore.trans ?_ (c1 i)
        rw [hgi]
        split_ifs with h'
        · rw [← h'.1]; exact ⟨rfl, rfl, rfl, rfl⟩
        · exact .refl _

end answer

lemma replyPos_lt {cs : List Nat} (rep : List Int) {c : Nat} (hc : c ∈ cs) :
    replyPos cs rep c < cs.length :=
  List.length_filter_lt_length_iff_exists.mpr ⟨c, hc, by simp⟩

lemma ReplyReady.congr {me me' : TnodesMeta} {j : Nat} (h : ReplyReady me j)
    (hp : me'.peers.getD j default = me.peers.getD j default)
    (hl : me'.peers.length = me.peers.length) (hc : me'.construct.length = me.construct.length) :
    ReplyReady me' j := by
  obtain ⟨h1, h2, h3, h4, h5, h6, h7⟩ := h
  rw [← hp] at h2 h3 h4 h5 h6 h7
  exact ⟨hl ▸ h1, h2, hc ▸ h3, h4, h5, h6, h7⟩

lemma ReplyReady.count_of_setQuerypos {me : TnodesMeta} {j : Nat} {buf : List Int}
    (h : ReplyReady (me.setQuerypos j buf) j) :
    (me.peers.getD j default).sharedno.length = (me.peers.getD j default).bufcount := by
  have := h.count
  rwa [setQuerypos_getD, if_pos ⟨rfl, by simpa using h.index⟩] at this

/-- The peer at index `j` of a process of rank `r` owns candidates the process queried and
awaits the reply for.
Source: `wait_query_reply` (part_000 ll. 1116–1117)
Kind: D -/
def AwaitsReply (r : Nat) (m : TnodesMeta) (j : Nat) : Prop :=
  (m.peers.getD j default).bufcount ≠ 0 ∧ (m.peers.getD j default).rank < r

instance (r : Nat) (m : TnodesMeta) (j : Nat) : Decidable (AwaitsReply r m j) :=
  inferInstanceAs (Decidable (_ ∧ _))

/-! ## Receiving the replies -/

section receive

variable (ms : Nat → TnodesMeta) (r : Nat)

/-- The reply rank `r` receives from the peer at index `j` of its state `m`. -/
def replyFor (m : TnodesMeta) (j : Nat) : List Int :=
  System.reply ms (m.peers.getD j default).rank r

/-- **What the receive loop has done after the peers `is` of `m`.** Each queried candidate of a
peer awaiting a reply has its local number and its global number stored; the rest is as before.
Source: `wait_query_reply` (part_000 ll. 1115–1167)
Kind: D -/
structure Received (m m' : TnodesMeta) (is : List Nat) : Prop where
  keeps : Keeps m m'
  frame : ∃ cs nl ps, m' = { m with construct := cs, nonlocalNodes := nl, peers := ps }
  length : m'.peers.length = m.peers.length
  core : ∀ i, (m.peers.getD i default).SameCore (m'.peers.getD i default)
  rest : ∀ i ∉ is, AwaitsReply r m i → m'.peers.getD i default = m.peers.getD i default
  runid : ∀ j ∈ is, AwaitsReply r m j → ∀ d ∈ (m.peers.getD j default).sharedno,
    (m'.construct.getD d default).runid = ((m.numOwned + (m.peers.getD j default).shacumul +
      replyPos (m.peers.getD j default).sharedno (replyFor ms r m j) d : Nat) : Int)
  runid_rest : ∀ d, (∀ j ∈ is, AwaitsReply r m j → d ∉ (m.peers.getD j default).sharedno) →
    (m'.construct.getD d default).runid = (m.construct.getD d default).runid
  nonlocal : ∀ j ∈ is, AwaitsReply r m j → ∀ c ∈ (m.peers.getD j default).sharedno,
    m'.nonlocalNodes ((m.peers.getD j default).shacumul +
      replyPos (m.peers.getD j default).sharedno (replyFor ms r m j) c) =
      m.goffset (m.peers.getD j default).rank +
        replyValue (m.peers.getD j default).sharedno (replyFor ms r m j) c
  nonlocal_rest : ∀ k, (∀ j ∈ is, AwaitsReply r m j → k < (m.peers.getD j default).shacumul ∨
      (m.peers.getD j default).shacumul + (m.peers.getD j default).bufcount ≤ k) →
    m'.nonlocalNodes k = m.nonlocalNodes k

namespace Received

variable {ms r} {m m' : TnodesMeta} {is : List Nat} (h : Received ms r m m' is)
include h

lemma numOwned : m'.numOwned = m.numOwned := by obtain ⟨_, _, _, rfl⟩ := h.frame; rfl

lemma goffset : m'.goffset = m.goffset := by obtain ⟨_, _, _, rfl⟩ := h.frame; rfl

lemma sortp : m'.sortp = m.sortp := by obtain ⟨_, _, _, rfl⟩ := h.frame; rfl

end Received

lemma received_nil (m : TnodesMeta) : Received ms r m m [] :=
  ⟨.refl _, ⟨_, _, _, rfl⟩, rfl, fun _ => .refl _, fun _ _ _ => rfl, by simp, fun _ _ => rfl,
    by simp, fun _ _ => rfl⟩

/-- **The receive step.** Receiving the reply of one more peer, whose candidates and block of
`nonlocal_nodes` are disjoint from those of the peers received before, extends `Received`.
Source: `wait_query_reply` (part_000 ll. 1115–1167)
Kind: L -/
lemma Received.step {m acc : TnodesMeta} {is : List Nat} {j : Nat} (h : Received ms r m acc is)
    (hj : j ∉ is)
    (hR : ∀ i ∈ j :: is, AwaitsReply r m i → ReplyReady (m.setQuerypos i (replyFor ms r m i)) i)
    (hC : AwaitsReply r m j → ∀ j' ∈ is, AwaitsReply r m j' →
      ∀ d ∈ (m.peers.getD j default).sharedno, d ∉ (m.peers.getD j' default).sharedno)
    (hB : AwaitsReply r m j → ∀ j' ∈ is, AwaitsReply r m j' →
      (m.peers.getD j default).shacumul + (m.peers.getD j default).bufcount ≤
        (m.peers.getD j' default).shacumul ∨
      (m.peers.getD j' default).shacumul + (m.peers.getD j' default).bufcount ≤
        (m.peers.getD j default).shacumul) :
    Received ms r m (System.receiveStep ms r acc j) (is ++ [j]) := by
  have hmem : ∀ i, i ∈ is ++ [j] ↔ i ∈ is ∨ i = j := fun i => by simp
  unfold System.receiveStep
  dsimp only
  rw [(h.core j).1, (h.core j).2.1]
  split_ifs with ha
  · change AwaitsReply r m j at ha
    have hpj : acc.peers.getD j default = m.peers.getD j default := h.rest j hj ha
    change Received ms r m (receiveReply acc j (replyFor ms r m j)) _
    set a := acc.setQuerypos j (replyFor ms r m j) with ha_def
    have hpa : a.peers.getD j default = (m.setQuerypos j (replyFor ms r m j)).peers.getD j default := by
      rw [ha_def, setQuerypos_getD, setQuerypos_getD, hpj, h.length]
    have hRa : ReplyReady a j := (hR j (.head _) ha).congr hpa (by simp [a, h.length]) h.keeps.length
    have hpa' : a.peers.getD j default = { m.peers.getD j default with querypos := replyFor ms r m j } := by
      rw [hpa, setQuerypos_getD, if_pos ⟨rfl, by simpa using (hR j (.head _) ha).index⟩]
    have hrest : ∀ i ≠ j, (receiveReply acc j (replyFor ms r m j)).peers.getD i default =
        acc.peers.getD i default := fun i hi => by
      rw [receiveReply, processReply_peers_ne hi, setQuerypos_getD, if_neg fun h' => hi h'.1.symm]
    obtain ⟨hnl, hnl'⟩ := processReply_nonlocal hRa
    simp only [hpa'] at hnl hnl'
    refine ⟨h.keeps.trans (((Keeps.refl acc).withPeers _).trans keeps_processReply), ?_,
      ?_, fun i => ?_, fun i hi hai => ?_, fun j' hj' ha' d hd => ?_, fun d hd => ?_,
      fun j' hj' ha' c hc => ?_, fun k hk => ?_⟩
    · obtain ⟨_, _, _, e⟩ := h.frame
      obtain ⟨cs, nl, ps, e'⟩ := processReply_eq a j
      exact ⟨cs, nl, ps, by rw [receiveReply, e', ha_def, e]; rfl⟩
    · simp [receiveReply, processReply_peers_length, TnodesMeta.setQuerypos, h.length]
    · by_cases hij : i = j
      · subst hij
        obtain ⟨rs, hrs⟩ := @processReply_peers_self a i hRa.index
        rw [receiveReply, hrs, hpa']
        exact ⟨rfl, rfl, rfl, rfl⟩
      · rw [hrest i hij]; exact h.core i
    · rw [hmem, not_or] at hi
      rw [hrest i hi.2, h.rest i hi.1 hai]
    · rw [receiveReply, processReply_runid hRa, hpa']
      rcases (hmem j').mp hj' with hj' | rfl
      · rw [if_neg (hC ha j' hj' ha' d · hd)]; exact h.runid j' hj' ha' d hd
      · rw [if_pos hd, ha_def, setQuerypos_numOwned, h.numOwned]
    · rw [receiveReply, processReply_runid hRa, hpa',
        if_neg (hd j ((hmem j).mpr (.inr rfl)) ha)]
      exact h.runid_rest d fun j' hj' => hd j' ((hmem j').mpr (.inl hj'))
    · rcases (hmem j').mp hj' with hj' | rfl
      · have hlt := replyPos_lt (replyFor ms r m j') hc
        rw [(hR j' (.tail _ hj') ha').count_of_setQuerypos] at hlt
        have hBj := hB ha j' hj' ha'
        rw [receiveReply, hnl' _ (by omega)]
        exact h.nonlocal j' hj' ha' c hc
      · rw [receiveReply, hnl c hc, ha_def, setQuerypos_goffset, h.goffset]
    · rw [receiveReply, hnl' k (hk j ((hmem j).mpr (.inr rfl)) ha)]
      exact h.nonlocal_rest k fun j' hj' => hk j' ((hmem j').mpr (.inl hj'))
  · refine ⟨h.keeps, h.frame, h.length, h.core,
      fun i hi => h.rest i fun h' => hi (List.mem_append_left _ h'), fun j' hj' ha' => ?_,
      fun d hd => h.runid_rest d fun j' hj' => hd j' ((hmem j').mpr (.inl hj')),
      fun j' hj' ha' => ?_,
      fun k hk => h.nonlocal_rest k fun j' hj' => hk j' ((hmem j').mpr (.inl hj'))⟩
    · rcases (hmem j').mp hj' with hj' | rfl
      · exact h.runid j' hj' ha'
      · exact absurd ha' ha
    · rcases (hmem j').mp hj' with hj' | rfl
      · exact h.nonlocal j' hj' ha'
      · exact absurd ha' ha

/-- The peers `L` of `m` can be received in any order: every peer awaiting a reply gets a
well-formed reply, and the candidates and blocks of two such peers are disjoint.
Source: `wait_query_reply` (part_000 ll. 1115–1167)
Kind: D -/
structure ReceiveReady (m : TnodesMeta) (L : List Nat) : Prop where
  nodup : L.Nodup
  ready : ∀ i ∈ L, AwaitsReply r m i → ReplyReady (m.setQuerypos i (replyFor ms r m i)) i
  disjoint : ∀ i ∈ L, ∀ i' ∈ L, i ≠ i' → AwaitsReply r m i → AwaitsReply r m i' →
    ∀ d ∈ (m.peers.getD i default).sharedno, d ∉ (m.peers.getD i' default).sharedno
  blocks : ∀ i ∈ L, ∀ i' ∈ L, i ≠ i' → AwaitsReply r m i → AwaitsReply r m i' →
    (m.peers.getD i default).shacumul + (m.peers.getD i default).bufcount ≤
      (m.peers.getD i' default).shacumul ∨
    (m.peers.getD i' default).shacumul + (m.peers.getD i' default).bufcount ≤
      (m.peers.getD i default).shacumul

/-- **The receive loop.** Receiving the replies of the peers `L` in list order leaves every
candidate queried from them numbered and its global number stored.
Source: `wait_query_reply` (part_000 ll. 1067–1169)
Kind: L -/
lemma received_foldl {m : TnodesMeta} {L : List Nat} (hL : ReceiveReady ms r m L) :
    ∀ (l is : List Nat) (acc : TnodesMeta), is ++ l = L → Received ms r m acc is →
      Received ms r m (l.foldl (System.receiveStep ms r) acc) L
  | [], is, acc, hl, h => by rw [List.append_nil] at hl; exact hl ▸ h
  | j :: l, is, acc, hl, h => by
    have hsub : ∀ i ∈ j :: is, i ∈ L := fun i hi => by
      rw [← hl]; rcases List.mem_cons.mp hi with rfl | hi <;> simp [hi]
    have hj : j ∉ is := fun hj => by
      have := hL.nodup; rw [← hl] at this
      exact List.disjoint_of_nodup_append this hj (.head _)
    have hne : ∀ j' ∈ is, j ≠ j' := fun j' hj' h' => hj (h' ▸ hj')
    exact received_foldl hL l (is ++ [j]) _ (by rw [← hl]; simp)
      (h.step ms r hj (fun i hi => hL.ready i (hsub i hi))
        (fun ha j' hj' => hL.disjoint j (hsub j (.head _)) j' (hsub j' (.tail _ hj')) (hne j' hj') ha)
        (fun ha j' hj' => hL.blocks j (hsub j (.head _)) j' (hsub j' (.tail _ hj')) (hne j' hj') ha))

/-! ## The whole exchange -/

/-- `m'` differs from `m` in the peer records only, and not in those awaiting a reply or in
their rank, count, offset and queried candidates.
Source: none: infrastructure
Kind: D -/
structure SameReplies (m m' : TnodesMeta) : Prop where
  eq : m' = { m with peers := m'.peers }
  length : m'.peers.length = m.peers.length
  core : ∀ i, (m.peers.getD i default).SameCore (m'.peers.getD i default)
  awaiting : ∀ i, AwaitsReply r m i → m'.peers.getD i default = m.peers.getD i default

namespace SameReplies

variable {ms r} {m m' : TnodesMeta} (h : SameReplies r m m')
include h

lemma awaitsReply_iff (i : Nat) : AwaitsReply r m' i ↔ AwaitsReply r m i := by
  unfold AwaitsReply
  rw [(h.core i).1, (h.core i).2.1]

lemma replyFor (i : Nat) : replyFor ms r m' i = replyFor ms r m i := by
  unfold P4estTnodes.replyFor
  rw [(h.core i).1]

lemma receiveReady {L : List Nat} (hL : ReceiveReady ms r m L) : ReceiveReady ms r m' L := by
  have hp : ∀ i, AwaitsReply r m' i → m'.peers.getD i default = m.peers.getD i default :=
    fun i hi => h.awaiting i ((h.awaitsReply_iff i).mp hi)
  refine ⟨hL.nodup, fun i hi ha => ?_, fun i hi i' hi' hne ha ha' => ?_,
    fun i hi i' hi' hne ha ha' => ?_⟩
  · rw [h.replyFor]
    refine (hL.ready i hi ((h.awaitsReply_iff i).mp ha)).congr ?_ (by simp [h.length]) ?_
    · rw [setQuerypos_getD, setQuerypos_getD, hp i ha, h.length]
    · rw [h.eq]; rfl
  · rw [hp i ha, hp i' ha']
    exact hL.disjoint i hi i' hi' hne ((h.awaitsReply_iff i).mp ha) ((h.awaitsReply_iff i').mp ha')
  · rw [hp i ha, hp i' ha']
    exact hL.blocks i hi i' hi' hne ((h.awaitsReply_iff i).mp ha) ((h.awaitsReply_iff i').mp ha')

lemma received {m'' : TnodesMeta} {L : List Nat} (h' : Received ms r m' m'' L) :
    Received ms r m m'' L := by
  have hp : ∀ i, AwaitsReply r m i → m'.peers.getD i default = m.peers.getD i default :=
    h.awaiting
  have ha : ∀ i, AwaitsReply r m i → AwaitsReply r m' i := fun i => (h.awaitsReply_iff i).mpr
  obtain ⟨hk, ⟨cs, nl, ps, hf⟩, hl, hc, hr, hu, hu', hv, hv'⟩ := h'
  rw [h.eq] at hk hf hu' hv'
  refine ⟨⟨hk.1, hk.2, hk.3, hk.4, hk.5⟩, ⟨cs, nl, ps, hf⟩, hl.trans h.length,
    fun i => (h.core i).trans (hc i), fun i hi hai => (hr i hi (ha i hai)).trans (hp i hai),
    fun j hj haj d hd => ?_, fun d hd => hu' d fun j hj haj => ?_,
    fun j hj haj c hc => ?_, fun k hk => hv' k fun j hj haj => ?_⟩
  · have := hu j hj (ha j haj) d (by rwa [hp j haj])
    rwa [hp j haj, h.replyFor, h.eq] at this
  · rw [hp j ((h.awaitsReply_iff j).mp haj)]; exact hd j hj ((h.awaitsReply_iff j).mp haj)
  · have := hv j hj (ha j haj) c (by rwa [hp j haj])
    rwa [hp j haj, h.replyFor, h.eq] at this
  · rw [hp j ((h.awaitsReply_iff j).mp haj)]; exact hk j hj ((h.awaitsReply_iff j).mp haj)

end SameReplies

lemma received_of_foldl {m : TnodesMeta} {L : List Nat} (hL : ReceiveReady ms r m L) :
    Received ms r m (L.foldl (System.receiveStep ms r) m) L :=
  received_foldl ms r hL L [] m rfl (received_nil ms r m)

/-- Answering the queries leaves the peers awaiting a reply as they are.
Source: `wait_query_reply` (part_000 ll. 1078–1114)
Kind: L -/
lemma sameReplies_answer (m : TnodesMeta) :
    SameReplies r m ((List.range m.peers.length).foldl (System.answerStep ms r) m) := by
  obtain ⟨e, l, u, c⟩ := foldl_answerStep ms r (List.range m.peers.length) m
  exact ⟨e, l, c, fun i hi => u i (.inr (Nat.le_of_lt hi.2))⟩

/-- **The exchange on one process.** If the peers awaiting a reply can be received in rank
order, the exchange numbers every candidate queried from them and stores its global number.
Source: `wait_query_reply` (part_000 ll. 1036–1177)
Kind: P -/
theorem exchange_received (hL : ReceiveReady ms r (System.phase2 ms r) (System.phase2 ms r).sortp) :
    Received ms r (System.phase2 ms r) (System.exchange ms r) (System.phase2 ms r).sortp := by
  have h := sameReplies_answer ms r (System.phase2 ms r)
  have hs : ((List.range (System.phase2 ms r).peers.length).foldl (System.answerStep ms r)
      (System.phase2 ms r)).sortp = (System.phase2 ms r).sortp := by rw [h.eq]
  unfold System.exchange
  dsimp only
  exact h.received (hs ▸ received_of_foldl ms r (hs ▸ h.receiveReady hL))

end receive

end P4estTnodes
