import P4estTnodes.Exchange

/-!
# The exchange on one process does not depend on the order of the messages

`wait_query_reply` answers the queries of the higher peers and processes the replies of the
lower peers in the order in which `MPI_Waitsome` reports them. The reference run
`System.exchange` answers every query first and then processes the replies in the order of
`sortp`. This file shows that on one process the order does not matter:

* `processReply_withPeers`: processing a reply reads no other peer record and no request, and
  its own record up to its state `done`;
* `foldl_receiveStep_getD`, `foldl_answerStep_getD`: each loop writes the record of each peer it
  handles as the first step on that peer would, and leaves the others alone;
* `Received.eq`: any two runs of the receive loop over the same peers awaiting a reply number the
  candidates alike and store the same `nonlocal_nodes`;
* `exchange_getD`: the records after the reference run.

The proof route. A loop whose body writes only the record of its own index, from that record
alone, leaves each record as one body would (`foldl_getD_local`); both loops are such loops.
`Received` (exchange module) describes the candidates and `nonlocal_nodes` after the receive loop
by formula, so two runs it describes agree wherever the formula speaks, and everywhere else both
leave the state as it was; on `nonlocal_nodes` the formula speaks on the whole block of each peer,
since the positions of its candidates fill the block (`ReplyReady.exists_replyPos`).
-/

namespace P4estTnodes

/-! ## Sorting by two orders that agree on the list -/

lemma orderedInsert_congr {α : Type} {R R' : α → α → Prop} [DecidableRel R] [DecidableRel R']
    (a : α) : ∀ l : List α, (∀ b ∈ l, (R a b ↔ R' a b)) →
      List.orderedInsert R a l = List.orderedInsert R' a l
  | [], _ => rfl
  | b :: l, h => by
    rw [List.orderedInsert, List.orderedInsert, orderedInsert_congr a l fun c hc => h c (.tail _ hc)]
    by_cases hab : R a b
    · rw [if_pos hab, if_pos ((h b (.head _)).mp hab)]
    · rw [if_neg hab, if_neg fun h' => hab ((h b (.head _)).mpr h')]

/-- Insertion sort compares elements of the list only. -/
lemma insertionSort_congr {α : Type} {R R' : α → α → Prop} [DecidableRel R] [DecidableRel R'] :
    ∀ l : List α, (∀ a ∈ l, ∀ b ∈ l, (R a b ↔ R' a b)) → l.insertionSort R = l.insertionSort R'
  | [], _ => rfl
  | a :: l, h => by
    rw [List.insertionSort, List.insertionSort,
      insertionSort_congr l fun b hb c hc => h b (.tail _ hb) c (.tail _ hc)]
    exact orderedInsert_congr a _ fun b hb =>
      h a (.head _) b (.tail _ ((List.perm_insertionSort R' l).subset hb))

/-! ## Loops that write one record per step -/

section loops

variable {S α : Type} (f : S → Nat → S) (g : S → Nat → α) (Inv : S → Prop) (s0 : S)

/-- **A loop whose body writes its own record.** If the body at `j` keeps `Inv`, writes no other
record, and writes record `j` from that record alone, then after the indices `l` each of them has
the record one body on `s0` gives it, and the others keep theirs.
Source: none: infrastructure
Kind: L -/
lemma foldl_getD_local (hInv : ∀ s j, Inv s → Inv (f s j))
    (hne : ∀ s i j, i ≠ j → g (f s j) i = g s i) :
    ∀ {l : List Nat}, l.Nodup →
      (∀ s, ∀ j ∈ l, Inv s → g s j = g s0 j → g (f s j) j = g (f s0 j) j) →
      ∀ s, Inv s → (∀ i ∈ l, g s i = g s0 i) →
        ∀ i, g (l.foldl f s) i = if i ∈ l then g (f s0 i) i else g s i
  | [], _, _, _, _, _, i => by simp
  | j :: l, hnd, hself, s, hs, hg, i => by
    rw [List.nodup_cons] at hnd
    rw [List.foldl_cons, foldl_getD_local hInv hne hnd.2 (fun s j hj => hself s j (.tail _ hj)) _
      (hInv s j hs) (fun i hi => (hne s i j fun h => hnd.1 (h ▸ hi)).trans (hg i (.tail _ hi))) i]
    by_cases hi : i ∈ l
    · simp [hi]
    · by_cases hij : i = j
      · subst hij
        rw [if_neg hi, if_pos (.head _), hself s i (.head _) hs (hg i (.head _))]
      · rw [if_neg hi, if_neg (by simp [hij, hi]), hne s i j hij]

end loops

/-! ## Processing a reply reads one peer record -/

section withPeers

variable (ps : List Peer) (pq : List Req)

lemma setReplied_withPeers : ∀ (me : TnodesMeta) (xs : List (Nat × Int)),
    setReplied { me with peers := ps, pereq := pq } xs =
      { setReplied me xs with peers := ps, pereq := pq }
  | _, [] => rfl
  | me, (c, v) :: xs => setReplied_withPeers (me.setRunid c v) xs

lemma storeNonlocal_withPeers (gof : Int) (sh : Nat) :
    ∀ (me : TnodesMeta) (rs : List Nat) (lcl : Nat),
      storeNonlocal gof sh { me with peers := ps, pereq := pq } rs lcl =
        { storeNonlocal gof sh me rs lcl with peers := ps, pereq := pq }
  | _, [], _ => rfl
  | me, c :: rs, lcl => by
    rw [storeNonlocal, storeNonlocal, ← storeNonlocal_withPeers gof sh _ rs (lcl + 1)]
    rfl

/-- The record a processed reply leaves: the peer done, its candidates in the owner's order.
Source: `wait_query_reply` (part_000 ll. 1140, 1164)
Kind: L -/
lemma processReply_getD_self (me : TnodesMeta) {j : Nat} (hj : j < me.peers.length) :
    (processReply me j).peers.getD j default =
      { me.peers.getD j default with remosort := sortedReplies me j, done := 0 } := by
  simp only [processReply, storeNonlocal_peers, repliedState_peers, getD_set, and_self, hj,
    if_true]

/-- **Processing a reply reads one record.** With other peer records and requests, and the record
at `j` in another state `done`, processing the reply of `j` computes the same and leaves the same
record at `j`.
Source: `wait_query_reply` (part_000 ll. 1127–1165)
Kind: L -/
lemma processReply_withPeers (me : TnodesMeta) {j : Nat} (hj : j < me.peers.length) {d : Nat}
    (hps : ps.getD j default = { me.peers.getD j default with done := d }) :
    processReply { me with peers := ps, pereq := pq } j =
      { processReply me j with
        peers := ps.set j ((processReply me j).peers.getD j default), pereq := pq } := by
  have hrs : repliedState { me with peers := ps, pereq := pq } j =
      { repliedState me j with peers := ps, pereq := pq } := by
    unfold repliedState
    rw [hps]
    exact setReplied_withPeers ps pq me _
  have hsr : sortedReplies { me with peers := ps, pereq := pq } j = sortedReplies me j := by
    unfold sortedReplies
    rw [hrs, hps]
  rw [processReply_getD_self me hj]
  unfold processReply
  dsimp only
  rw [hsr, hrs, hps, storeNonlocal_withPeers]

end withPeers

/-! ## The receive loop -/

section receive

variable (ms : Nat → TnodesMeta) (r : Nat)

lemma receiveStep_getD_ne (acc : TnodesMeta) {i j : Nat} (hij : i ≠ j) :
    (System.receiveStep ms r acc j).peers.getD i default = acc.peers.getD i default := by
  dsimp only [System.receiveStep]
  split_ifs
  · rw [receiveReply, processReply_peers_ne hij, setQuerypos_getD, if_neg fun h => hij h.1.symm]
  · rfl

lemma keeps_receiveStep (acc : TnodesMeta) (j : Nat) :
    Keeps acc (System.receiveStep ms r acc j) := by
  dsimp only [System.receiveStep]
  split_ifs
  · exact ((Keeps.refl acc).withPeers _).trans keeps_processReply
  · exact .refl acc

lemma receiveStep_peers_length (acc : TnodesMeta) (j : Nat) :
    (System.receiveStep ms r acc j).peers.length = acc.peers.length := by
  dsimp only [System.receiveStep]
  split_ifs
  · rw [receiveReply, processReply_peers_length, setQuerypos_peers_length]
  · rfl

/-- **The record of a processed peer** does not depend on the replies processed before: only on
its own record and on the number of candidates.
Source: `wait_query_reply` (part_000 ll. 1117–1165)
Kind: L -/
lemma receiveStep_getD_self {acc m : TnodesMeta} {j : Nat}
    (hp : acc.peers.getD j default = m.peers.getD j default)
    (hl : acc.peers.length = m.peers.length) (hc : acc.construct.length = m.construct.length)
    (hR : AwaitsReply r m j → ReplyReady (m.setQuerypos j (replyFor ms r m j)) j) :
    (System.receiveStep ms r acc j).peers.getD j default =
      (System.receiveStep ms r m j).peers.getD j default := by
  dsimp only [System.receiveStep]
  rw [hp]
  split_ifs with ha
  · change (receiveReply acc j (replyFor ms r m j)).peers.getD j default =
      (receiveReply m j (replyFor ms r m j)).peers.getD j default
    have hRm := hR ha
    have hrec : (acc.setQuerypos j (replyFor ms r m j)).peers.getD j default =
        (m.setQuerypos j (replyFor ms r m j)).peers.getD j default := by
      rw [setQuerypos_getD, setQuerypos_getD, hp, hl]
    have hRa : ReplyReady (acc.setQuerypos j (replyFor ms r m j)) j :=
      hRm.congr hrec (by simp [hl]) hc
    have hv : ∀ a ∈ ((m.setQuerypos j (replyFor ms r m j)).peers.getD j default).remosort,
        ((repliedState (acc.setQuerypos j (replyFor ms r m j)) j).construct.getD a default).runid =
          ((repliedState (m.setQuerypos j (replyFor ms r m j)) j).construct.getD a default).runid :=
      fun a ha => by
        rw [hRm.remosort] at ha
        rw [hRa.repliedState_runid, hRm.repliedState_runid, hrec, if_pos ha, if_pos ha]
    have hs : ((m.setQuerypos j (replyFor ms r m j)).peers.getD j default).remosort.insertionSort
        (rnodeLe (repliedState (acc.setQuerypos j (replyFor ms r m j)) j).construct) =
        ((m.setQuerypos j (replyFor ms r m j)).peers.getD j default).remosort.insertionSort
        (rnodeLe (repliedState (m.setQuerypos j (replyFor ms r m j)) j).construct) :=
      insertionSort_congr _ fun a ha b hb => by unfold rnodeLe; rw [hv a ha, hv b hb]
    rw [receiveReply, receiveReply, processReply_getD_self _ hRa.index,
      processReply_getD_self _ hRm.index, sortedReplies, sortedReplies, hrec, hs]
  · exact hp

/-- **The receive loop writes each processed peer's record alone**: after the replies of the peers
`l`, each has the record the first reply would give it, and the others keep theirs.
Source: `wait_query_reply` (part_000 ll. 1115–1167)
Kind: L -/
lemma foldl_receiveStep_getD {m : TnodesMeta} {l : List Nat} (hnd : l.Nodup)
    (hR : ∀ i ∈ l, AwaitsReply r m i → ReplyReady (m.setQuerypos i (replyFor ms r m i)) i)
    {acc : TnodesMeta} (hl : acc.peers.length = m.peers.length)
    (hc : acc.construct.length = m.construct.length)
    (hp : ∀ i ∈ l, acc.peers.getD i default = m.peers.getD i default) (i : Nat) :
    (l.foldl (System.receiveStep ms r) acc).peers.getD i default =
      if i ∈ l then (System.receiveStep ms r m i).peers.getD i default
      else acc.peers.getD i default :=
  foldl_getD_local (System.receiveStep ms r) (fun s i => s.peers.getD i default)
    (fun s => s.peers.length = m.peers.length ∧ s.construct.length = m.construct.length) m
    (fun s j hs => ⟨(receiveStep_peers_length ms r s j).trans hs.1,
      (keeps_receiveStep ms r s j).length.trans hs.2⟩)
    (fun s _ _ hij => receiveStep_getD_ne ms r s hij) hnd
    (fun _ j hj hs hsj => receiveStep_getD_self ms r hsj hs.1 hs.2 (hR j hj)) acc ⟨hl, hc⟩ hp i

/-- The peers awaiting a reply of a list that can be received in any order can be received in any
order.
Source: none: infrastructure
Kind: L -/
lemma ReceiveReady.mono {m : TnodesMeta} {L L' : List Nat} (h : ReceiveReady ms r m L)
    (hnd : L'.Nodup) (hsub : ∀ i ∈ L', i ∈ L) : ReceiveReady ms r m L' :=
  ⟨hnd, fun i hi => h.ready i (hsub i hi),
    fun i hi i' hi' => h.disjoint i (hsub i hi) i' (hsub i' hi'),
    fun i hi i' hi' => h.blocks i (hsub i hi) i' (hsub i' hi')⟩

/-- A record in the state after the receive loop answers a query as before: the candidate of an
element slot is no queried candidate. -/
lemma Received.translateEntry {m F : TnodesMeta} {L : List Nat} (h : Received ms r m F L) {e : Int}
    (he : ∀ j ∈ L, AwaitsReply r m j →
      (m.elementNodes e.toNat).toNat ∉ (m.peers.getD j default).sharedno) :
    translateEntry F e = translateEntry m e := by
  unfold P4estTnodes.translateEntry
  rw [h.keeps.elementNodes]
  exact h.runid_rest _ he

end receive

/-! ## Any two orders of the replies -/

lemma Cnode.eq_of_shape {a b : Cnode} (hs : a.shape = b.shape) (hr : a.runid = b.runid) :
    a = b := by
  cases a
  cases b
  simp only [Cnode.shape, Prod.mk.injEq] at hs
  obtain ⟨rfl, rfl, rfl⟩ := hs
  subst hr
  rfl

/-- The positions of the candidates of a reply fill its block.
Source: `wait_query_reply` (part_000 ll. 1140–1162)
Kind: L -/
lemma ReplyReady.exists_replyPos {me : TnodesMeta} {j : Nat} (h : ReplyReady me j) {k : Nat}
    (hk : k < (me.peers.getD j default).bufcount) :
    ∃ c ∈ (me.peers.getD j default).sharedno,
      replyPos (me.peers.getD j default).sharedno (me.peers.getD j default).querypos c = k := by
  have hk' : k < (sortedReplies me j).length := h.sortedReplies_length ▸ hk
  have hc := (h.mem_sortedReplies _).mp (List.getElem_mem hk')
  exact ⟨_, hc, (h.indexOf_sortedReplies hc).symm.trans
    (List.indexOf_getElem h.sortedReplies_nodup k hk')⟩

section order

variable {ms : Nat → TnodesMeta} {r : Nat} {m F F' : TnodesMeta} {L L' : List Nat}

/-- **The receive loop does not depend on the order of the replies.** Two runs of it over the same
peers awaiting a reply number the candidates alike and store the same `nonlocal_nodes`.
Source: `wait_query_reply` (part_000 ll. 1115–1167)
Kind: L -/
lemma Received.eq (h : Received ms r m F L) (h' : Received ms r m F' L')
    (hLL : ∀ i, AwaitsReply r m i → (i ∈ L ↔ i ∈ L'))
    (hR : ∀ i ∈ L, AwaitsReply r m i → ReplyReady (m.setQuerypos i (replyFor ms r m i)) i) :
    F.construct = F'.construct ∧ F.nonlocalNodes = F'.nonlocalNodes := by
  have hrun : ∀ d, (F.construct.getD d default).runid = (F'.construct.getD d default).runid := by
    intro d
    by_cases hd : ∃ j ∈ L, AwaitsReply r m j ∧ d ∈ (m.peers.getD j default).sharedno
    · obtain ⟨j, hj, ha, hdj⟩ := hd
      rw [h.runid j hj ha d hdj, h'.runid j ((hLL j ha).mp hj) ha d hdj]
    · rw [h.runid_rest d fun j hj ha hdj => hd ⟨j, hj, ha, hdj⟩,
        h'.runid_rest d fun j hj ha hdj => hd ⟨j, (hLL j ha).mpr hj, ha, hdj⟩]
  have hlen : F.construct.length = F'.construct.length := h.keeps.length.trans h'.keeps.length.symm
  refine ⟨List.ext_getElem hlen fun d h1 h2 => ?_, funext fun k => ?_⟩
  · have hs := (shape_getD h.keeps.shape d).trans (shape_getD h'.keeps.shape d).symm
    rw [← List.getD_eq_getElem _ default h1, ← List.getD_eq_getElem _ default h2]
    exact Cnode.eq_of_shape hs (hrun d)
  · by_cases hk : ∃ j ∈ L, AwaitsReply r m j ∧ (m.peers.getD j default).shacumul ≤ k ∧
        k < (m.peers.getD j default).shacumul + (m.peers.getD j default).bufcount
    · obtain ⟨j, hj, ha, hk1, hk2⟩ := hk
      have hRj := hR j hj ha
      have hrec : (m.setQuerypos j (replyFor ms r m j)).peers.getD j default =
          { m.peers.getD j default with querypos := replyFor ms r m j } := by
        rw [setQuerypos_getD, if_pos ⟨rfl, by simpa using hRj.index⟩]
      obtain ⟨c, hc, hck⟩ := hRj.exists_replyPos
        (show k - (m.peers.getD j default).shacumul < _ by rw [hrec]; dsimp only; omega)
      rw [hrec] at hc hck
      dsimp only at hc hck
      rw [show k = (m.peers.getD j default).shacumul +
          replyPos (m.peers.getD j default).sharedno (replyFor ms r m j) c by omega,
        h.nonlocal j hj ha c hc, h'.nonlocal j ((hLL j ha).mp hj) ha c hc]
    · rw [h.nonlocal_rest k fun j hj ha => ?_, h'.nonlocal_rest k fun j hj ha => ?_]
      · by_contra hc
        exact hk ⟨j, (hLL j ha).mpr hj, ha, by omega, by omega⟩
      · by_contra hc
        exact hk ⟨j, hj, ha, by omega, by omega⟩

end order

/-! ## The answer loop -/

/-- The peer at index `j` of a process of rank `r` sends it a query: a higher rank sharing
nodes with it.
Source: `wait_query_reply` (part_000 ll. 1078–1080)
Kind: D -/
def AwaitsQuery (r : Nat) (m : TnodesMeta) (j : Nat) : Prop :=
  (m.peers.getD j default).bufcount ≠ 0 ∧ r < (m.peers.getD j default).rank

instance (r : Nat) (m : TnodesMeta) (j : Nat) : Decidable (AwaitsQuery r m j) :=
  inferInstanceAs (Decidable (_ ∧ _))

/-- A peer with messages has a record. -/
lemma AwaitsQuery.lt {r : Nat} {m : TnodesMeta} {j : Nat} (h : AwaitsQuery r m j) :
    j < m.peers.length :=
  not_le.mp fun hn => h.1 (by rw [List.getD_eq_default _ _ hn]; rfl)

lemma AwaitsReply.lt {r : Nat} {m : TnodesMeta} {j : Nat} (h : AwaitsReply r m j) :
    j < m.peers.length :=
  not_le.mp fun hn => h.1 (by rw [List.getD_eq_default _ _ hn]; rfl)

section answer

variable (ms : Nat → TnodesMeta) (r : Nat)

lemma answerStep_getD_ne (acc : TnodesMeta) {i j : Nat} (hij : i ≠ j) :
    (System.answerStep ms r acc j).peers.getD i default = acc.peers.getD i default := by
  rcases answerStep_cases ms r acc j with h | ⟨-, -, qp, h⟩ <;> rw [h]
  rw [getD_set, if_neg fun h' => hij h'.1.symm]

/-- The answer to a query: its entries translated on the state before the exchange.
Source: `wait_query_reply` (part_000 ll. 1078–1114)
Kind: L -/
lemma answerStep_getD_self {acc m : TnodesMeta} {j : Nat} (he : acc = { m with peers := acc.peers })
    (hp : acc.peers.getD j default = m.peers.getD j default)
    (hl : acc.peers.length = m.peers.length) :
    (System.answerStep ms r acc j).peers.getD j default =
      (System.answerStep ms r m j).peers.getD j default := by
  have ht : translateEntry acc = translateEntry m := by rw [he]; rfl
  dsimp only [System.answerStep]
  rw [hp]
  split_ifs
  · simp only [answerQuery, getD_set, hp, hl, ht]
  · exact hp

/-- **The answer loop writes each answered peer's record alone.**
Source: `wait_query_reply` (part_000 ll. 1078–1114)
Kind: L -/
lemma foldl_answerStep_getD (m : TnodesMeta) {l : List Nat} (hnd : l.Nodup) (i : Nat) :
    (l.foldl (System.answerStep ms r) m).peers.getD i default =
      if i ∈ l then (System.answerStep ms r m i).peers.getD i default
      else m.peers.getD i default :=
  foldl_getD_local (System.answerStep ms r) (fun s i => s.peers.getD i default)
    (fun s => s = { m with peers := s.peers } ∧ s.peers.length = m.peers.length) m
    (fun s j hs => by
      obtain ⟨e, l, -, -⟩ := foldl_answerStep ms r [j] s
      exact ⟨by rw [List.foldl_cons, List.foldl_nil] at e; rw [e, hs.1],
        l.trans hs.2⟩)
    (fun s _ _ hij => answerStep_getD_ne ms r s hij) hnd
    (fun _ _ _ hs hsj => answerStep_getD_self ms r hs.1 hsj hs.2) m ⟨rfl, rfl⟩ (fun _ _ => rfl) i

end answer

/-! ## The records after the reference run -/

/-- **The records after the reference run**: a lower peer with messages has the record its
reply leaves, a higher one the record its answer leaves, and the others keep theirs.
Source: `wait_query_reply` (part_000 ll. 1036–1177)
Kind: L -/
lemma exchange_getD (ms : Nat → TnodesMeta) (r : Nat)
    (hL : ReceiveReady ms r (System.phase2 ms r) (System.phase2 ms r).sortp)
    (hs : ∀ j, j ∈ (System.phase2 ms r).sortp ↔ j < (System.phase2 ms r).peers.length) (i : Nat) :
    (System.exchange ms r).peers.getD i default =
      if AwaitsReply r (System.phase2 ms r) i then
        (System.receiveStep ms r (System.phase2 ms r) i).peers.getD i default
      else (System.answerStep ms r (System.phase2 ms r) i).peers.getD i default := by
  unfold System.exchange
  dsimp only
  generalize System.phase2 ms r = m0 at hL hs ⊢
  have h1 := sameReplies_answer ms r m0
  have hm1 := foldl_answerStep_getD ms r m0 (List.nodup_range m0.peers.length)
  generalize (List.range m0.peers.length).foldl (System.answerStep ms r) m0 = m1 at h1 hm1 ⊢
  have hL1 := h1.receiveReady hL
  have hsp : m1.sortp = m0.sortp := by rw [h1.eq]
  rw [hsp, foldl_receiveStep_getD ms r hL1.nodup hL1.ready rfl rfl (fun _ _ => rfl)]
  by_cases ha : AwaitsReply r m0 i
  · have hi := (hs i).mpr ha.lt
    rw [if_pos hi, if_pos ha, receiveStep_getD_self ms r (h1.awaiting i ha) h1.length
      (h1.eq ▸ rfl) (hL.ready i hi)]
  · have hm1' : m1.peers.getD i default = (System.answerStep ms r m0 i).peers.getD i default := by
      rw [hm1]
      split_ifs with hi
      · rfl
      · dsimp only [System.answerStep]
        rw [if_neg fun h => h.1 (by
          rw [List.getD_eq_default _ _ (not_lt.mp (List.mem_range.not.mp hi))]; rfl)]
    rw [if_neg ha, ← hm1']
    split_ifs
    · dsimp only [System.receiveStep]
      split_ifs with hc
      · exact absurd hc ((h1.awaitsReply_iff i).not.mpr ha)
      · rfl
    · rfl

end P4estTnodes
