import P4estTnodes.OwnedSpec

/-!
# What `post_query_reply`, `sort_allgather` and `sort_peers` compute

The three local steps between `owned_query_reply` and the exchange, each with its spec lemma:

* `postQueryReply_peers`: every peer record becomes its posted form `postedPeer` (receive
  buffer and state `1` towards a higher rank, state `3` towards a lower one, nothing for a
  passive peer);
* `sortAllgather_runid`: the owned candidates are numbered by their position in the sorted
  `ownsort`, and `indexOf_insertionSort_cnodeLe`: for pairwise distinct owner slots that
  position is the number of owned candidates with a smaller slot;
* `sortPeers_peers`: the peers are visited in rank order, and each record receives as
  `shacumul` the `bufcount` sum of the lower peers of smaller rank (`shacumulOf`).

The peer loops work by index; `foldl_set_map`, `getD_set` and `set_getD_self` are the list
facts they need.
-/

namespace P4estTnodes

/-! ## Lists updated by index -/


/-- Reading a list after setting one index.
Source: none: infrastructure
Kind: L -/
lemma getD_set {α : Type} (l : List α) (i j : Nat) (x d : α) :
    (l.set i x).getD j d = if i = j ∧ j < l.length then x else l.getD j d := by
  simp only [List.getD_eq_getElem?_getD, List.getElem?_set]
  by_cases hj : j < l.length
  · by_cases h : i = j <;> simp [h, hj]
  · by_cases h : i = j <;> simp [h, hj, List.getElem?_eq_none (Nat.le_of_not_lt hj)]

/-- Setting an index to what it holds changes nothing.
Source: none: infrastructure
Kind: L -/
lemma set_getD_self {α : Type} (l : List α) (i : Nat) (d : α) : l.set i (l.getD i d) = l := by
  apply List.ext_getElem?
  intro j
  simp only [List.getElem?_set]
  by_cases hj : j < l.length
  · by_cases h : i = j <;> simp [h, hj, List.getD_eq_getElem?_getD]
  · by_cases h : i = j <;> simp [h, hj, List.getElem?_eq_none (Nat.le_of_not_lt hj)]

/-- In a list strictly sorted by `lt`, the position of an element is the number of elements
below it.
Source: none: infrastructure
Kind: L -/
lemma indexOf_eq_length_filter {α : Type} [DecidableEq α] (lt : α → α → Prop) [DecidableRel lt]
    (hirr : ∀ a, ¬ lt a a) (hasymm : ∀ a b, lt a b → ¬ lt b a) :
    ∀ (l : List α), l.Pairwise lt → ∀ c ∈ l, l.indexOf c = (l.filter (lt · c)).length
  | [], _, c, hc => absurd hc (List.not_mem_nil c)
  | a :: t, hp, c, hc => by
    rw [List.pairwise_cons] at hp
    by_cases hca : a = c
    · subst hca
      rw [List.indexOf_cons_self, List.filter_cons_of_neg (by simpa using hirr a), eq_comm,
        List.length_eq_zero, List.filter_eq_nil_iff]
      exact fun b hb h' => hasymm _ _ (hp.1 b hb) (by simpa using h')
    · have hct : c ∈ t := (List.mem_cons.mp hc).resolve_left (Ne.symm hca)
      rw [List.indexOf_cons_ne _ hca, List.filter_cons_of_pos (by simpa using hp.1 c hct),
        List.length_cons, indexOf_eq_length_filter lt hirr hasymm t hp.2 c hct]

/-- Counting the elements below `a` by a key into a linear order is monotone in the key of `a`.
Source: none: infrastructure
Kind: L -/
lemma length_filter_key_le {α β : Type} [LinearOrder β] (f : α → β) (l : List α) {a b : α}
    (h : f a ≤ f b) :
    (l.filter fun x => f x < f a).length ≤ (l.filter fun x => f x < f b).length :=
  (List.monotone_filter_right l fun x hx => by
    simp only [decide_eq_true_eq] at hx ⊢; exact lt_of_lt_of_le hx h).length_le

/-- Counting the elements below `a` by a key orders the elements of `l` as their keys do.
Source: none: infrastructure
Kind: L -/
lemma length_filter_key_lt_iff {α β : Type} [LinearOrder β] (f : α → β) {l : List α} {a b : α}
    (ha : a ∈ l) :
    (l.filter fun x => f x < f a).length < (l.filter fun x => f x < f b).length ↔ f a < f b := by
  refine ⟨fun h => lt_of_not_le fun h' => absurd (length_filter_key_le f l h') (not_le.mpr h),
    fun h => ?_⟩
  have hs := @List.monotone_filter_right _ l (fun x => decide (f x < f a))
    (fun x => decide (f x < f b)) fun x hx => by
      simp only [decide_eq_true_eq] at hx ⊢; exact lt_trans hx h
  rcases hs.length_le.lt_or_eq with hlt | heq
  · exact hlt
  · have hm : a ∈ l.filter fun x => decide (f x < f b) := List.mem_filter.mpr ⟨ha, by simpa using h⟩
    rw [← hs.eq_of_length heq] at hm
    simp at hm


/-- A loop that replaces every entry `i < j` by its image under `f`.
Source: none: infrastructure
Kind: L -/
lemma foldl_set_map {α : Type} [Inhabited α] (f : α → α) (l : List α) :
    ∀ j ≤ l.length, (List.range j).foldl (fun acc i => acc.set i (f (acc.getD i default))) l =
      (l.take j).map f ++ l.drop j
  | 0, _ => by simp
  | j + 1, hj => by
    have hA : ((l.take j).map f).length ≤ j := by simp
    have h0 : j - ((l.take j).map f).length = 0 := by simp; omega
    rw [List.range_succ, List.foldl_append, foldl_set_map f l j (by omega), List.foldl_cons,
      List.foldl_nil, List.drop_eq_getElem_cons (by omega), List.take_succ,
      List.getElem?_eq_getElem (by omega), List.getD_append_right _ _ _ _ hA,
      List.set_append_right _ _ hA, h0]
    simp only [List.getD_cons_zero, List.set_cons_zero, Option.toList_some, List.map_append,
      List.map_cons, List.map_nil, List.append_assoc, List.singleton_append]

/-! ## `post_query_reply` -/

/-- The peer record as `post_query_reply` leaves it: a higher peer with messages gets its
receive buffer and state `1`, a lower one state `3`, a passive one stays.
Source: `post_query_reply` (part_000 ll. 1000–1032)
Kind: D -/
def postedPeer (mpirank : Nat) (p : Peer) : Peer :=
  if p.bufcount = 0 then p
  else if p.rank > mpirank then { p with querypos := List.replicate p.bufcount 0, done := 1 }
  else { p with done := 3 }

lemma postPeer_eq (me : TnodesMeta) (iz : Nat) :
    ∃ rq ep, postPeer me iz = { me with
      peers := me.peers.set iz (postedPeer me.mpirank (me.peers.getD iz default)),
      pereq := rq, emptypeers := ep } := by
  unfold postPeer postedPeer
  dsimp only
  split_ifs
  · exact ⟨_, _, by rw [set_getD_self]⟩
  · exact ⟨_, _, rfl⟩
  · exact ⟨_, _, rfl⟩

lemma foldl_postPeer (is : List Nat) : ∀ m : TnodesMeta, ∃ rq ep,
    is.foldl postPeer m = { m with
      peers := is.foldl (fun acc i => acc.set i (postedPeer m.mpirank (acc.getD i default))) m.peers,
      pereq := rq, emptypeers := ep } := by
  induction is with
  | nil => exact fun m => ⟨m.pereq, m.emptypeers, rfl⟩
  | cons i is ih =>
    intro m
    obtain ⟨rq, ep, h1⟩ := postPeer_eq m i
    obtain ⟨rq', ep', h2⟩ := ih (postPeer m i)
    refine ⟨rq', ep', ?_⟩
    rw [List.foldl_cons, h2, h1]
    rfl

/-- The request `post_query_reply` posts for a peer record: none for a passive peer, the
receive of the query from a higher rank, the send of the query to a lower one.
Source: `post_query_reply` (part_000 ll. 1000–1032)
Kind: D -/
def postedReq (mpirank : Nat) (p : Peer) : Req :=
  if p.bufcount = 0 then .null
  else if p.rank > mpirank then .recv p.rank .query
  else .send p.rank .query

lemma postPeer_pereq (me : TnodesMeta) (iz : Nat) :
    (postPeer me iz).pereq = me.pereq.set iz (postedReq me.mpirank (me.peers.getD iz default)) ∧
      (postPeer me iz).emptypeers =
        me.emptypeers + if (me.peers.getD iz default).bufcount = 0 then 1 else 0 := by
  unfold postPeer postedReq
  dsimp only
  split_ifs <;> exact ⟨rfl, rfl⟩

/-- The loop of `post_query_reply` after the first `j` peers: their requests are posted, the
rest still null, and the passive ones among them are counted.
Source: `post_query_reply` (part_000 ll. 999–1033)
Kind: L -/
lemma foldl_postPeer_pereq (me : TnodesMeta) : ∀ j ≤ me.peers.length,
    ((List.range j).foldl postPeer { me with pereq := List.replicate me.peers.length .null }).pereq =
      (me.peers.take j).map (postedReq me.mpirank) ++
        List.replicate (me.peers.length - j) .null ∧
    ((List.range j).foldl postPeer
        { me with pereq := List.replicate me.peers.length .null }).emptypeers =
      me.emptypeers + ((me.peers.take j).filter (·.bufcount = 0)).length
  | 0, _ => by simp
  | j + 1, hj => by
    obtain ⟨ih1, ih2⟩ := foldl_postPeer_pereq me j (by omega)
    obtain ⟨rq, ep, e⟩ := foldl_postPeer (List.range j)
      { me with pereq := List.replicate me.peers.length .null }
    have hp : ((List.range j).foldl postPeer
        { me with pereq := List.replicate me.peers.length .null }).peers.getD j default =
        me.peers[j] := by
      rw [e]
      dsimp only
      rw [foldl_set_map _ _ _ (by omega), List.getD_eq_getElem?_getD,
        List.getElem?_append_right (by simp)]
      simp [show min j me.peers.length = j by omega,
        List.getElem?_eq_getElem (show j < me.peers.length by omega)]
    have hr : ((List.range j).foldl postPeer
        { me with pereq := List.replicate me.peers.length .null }).mpirank = me.mpirank := by
      rw [e]
    obtain ⟨e1, e2⟩ := postPeer_pereq ((List.range j).foldl postPeer
      { me with pereq := List.replicate me.peers.length .null }) j
    have ht : me.peers.take (j + 1) = me.peers.take j ++ [me.peers[j]] := by
      rw [List.take_succ, List.getElem?_eq_getElem (by omega)]; rfl
    rw [List.range_succ, List.foldl_append, List.foldl_cons, List.foldl_nil, e1, e2, ih1, ih2, hp,
      hr, ht]
    have hA : ((me.peers.take j).map (postedReq me.mpirank)).length = j := by simp; omega
    have hn : me.peers.length - j = (me.peers.length - (j + 1)) + 1 := by omega
    refine ⟨?_, ?_⟩
    · rw [List.set_append_right _ _ (by omega), hA, Nat.sub_self, hn, List.replicate_succ]
      simp only [List.set_cons_zero, List.map_append, List.map_cons, List.map_nil,
        List.append_assoc, List.singleton_append]
    · rw [List.filter_append, List.length_append]
      by_cases hb : me.peers[j].bufcount = 0 <;> simp [hb, Nat.add_assoc]

/-- **What `post_query_reply` posts**: one request per peer record, and the passive records
counted as `emptypeers`.
Source: `post_query_reply` (part_000 ll. 979–1034)
Kind: L -/
lemma postQueryReply_pereq (me : TnodesMeta) (hg : me.ghost ≠ none) (hp : me.peers ≠ []) :
    (postQueryReply me).pereq = me.peers.map (postedReq me.mpirank) ∧
      (postQueryReply me).emptypeers =
        me.emptypeers + (me.peers.filter (·.bufcount = 0)).length := by
  unfold postQueryReply
  rw [if_neg (by simp [hg, hp])]
  simpa using foldl_postPeer_pereq me me.peers.length le_rfl

/-- **What `post_query_reply` does to the peer records**: every record becomes its posted form.
Source: `post_query_reply` (part_000 ll. 979–1034)
Kind: L -/
lemma postQueryReply_peers (me : TnodesMeta) (hg : me.ghost ≠ none) :
    (postQueryReply me).peers = me.peers.map (postedPeer me.mpirank) := by
  unfold postQueryReply
  split_ifs with h
  · rcases h with h | h
    · exact absurd h hg
    · simp [h]
  · obtain ⟨rq, ep, h1⟩ := foldl_postPeer (List.range me.peers.length)
      { me with pereq := List.replicate me.peers.length .null }
    rw [h1]
    simpa using foldl_set_map (postedPeer me.mpirank) me.peers _ le_rfl

lemma postQueryReply_eq (me : TnodesMeta) : ∃ ps rq ep,
    postQueryReply me = { me with peers := ps, pereq := rq, emptypeers := ep } := by
  unfold postQueryReply
  split_ifs
  · exact ⟨_, _, _, rfl⟩
  · obtain ⟨rq, ep, h1⟩ := foldl_postPeer (List.range me.peers.length)
      { me with pereq := List.replicate me.peers.length .null }
    exact ⟨_, rq, ep, h1⟩


/-! ## `sort_allgather` -/

lemma numberOwned_eq : ∀ (os : List Nat) (m : TnodesMeta) (zz : Nat),
    numberOwned m os zz = { m with construct := (numberOwned m os zz).construct }
  | [], _, _ => rfl
  | c :: os, m, zz => by rw [numberOwned, numberOwned_eq os]; rfl

lemma numberOwned_keeps : ∀ (os : List Nat) (m : TnodesMeta) (zz : Nat),
    Keeps m (numberOwned m os zz)
  | [], m, _ => .refl m
  | c :: os, m, zz => (keeps_setRunid m c zz).trans (numberOwned_keeps os _ _)

/-- `numberOwned` gives the candidate at position `i` of `os` the number `zz + i`.
Source: `sort_allgather` (part_000 ll. 838–841)
Kind: L -/
lemma numberOwned_runid : ∀ (os : List Nat) (m : TnodesMeta) (zz d : Nat), os.Nodup →
    ((numberOwned m os zz).construct.getD d default).runid =
      if d ∈ os ∧ d < m.construct.length then ((zz + os.indexOf d : Nat) : Int)
      else (m.construct.getD d default).runid
  | [], m, _, d, _ => by simp [numberOwned]
  | c :: os, m, zz, d, hnd => by
    rw [List.nodup_cons] at hnd
    rw [numberOwned, numberOwned_runid os _ _ d hnd.2, TnodesMeta.setRunid_getD,
      (keeps_setRunid m c zz).length]
    by_cases hdc : c = d
    · subst hdc
      simp [hnd.1, List.indexOf_cons_self]
    · by_cases hd : d ∈ os ∧ d < m.construct.length
      · simp only [hd, and_self, if_true, List.mem_cons, or_true, true_and,
          List.indexOf_cons_ne _ hdc]
        omega
      · simp only [hd, if_false, hdc, false_and, List.mem_cons, Ne.symm hdc, false_or]

section sortAllgather

variable (me : TnodesMeta) (g : Nat → Nat)

lemma sortAllgather_eq : sortAllgather me g = { me with
    construct := (sortAllgather me g).construct,
    ownsort := me.ownsort.insertionSort (cnodeLe me.construct), ownedCount := me.numOwned,
    numLocalNodes := me.numOwned + me.numShared, nonlocalNodes := fun _ => -1,
    globalOwnedCount := g, goffset := prefixSum g, globalOffset := prefixSum g me.mpirank } := by
  unfold sortAllgather
  dsimp only
  rw [numberOwned_eq]

lemma keeps_sortAllgather : Keeps me (sortAllgather me g) := by
  have h := numberOwned_keeps (me.ownsort.insertionSort (cnodeLe me.construct))
    { me with ownsort := me.ownsort.insertionSort (cnodeLe me.construct) } 0
  exact ⟨h.1, h.2, h.3, h.4, h.5⟩

/-- `sort_allgather` numbers the owned candidates by their position in the sorted `ownsort`.
Source: `sort_allgather` (part_000 ll. 832–841)
Kind: L -/
lemma sortAllgather_runid (hnd : me.ownsort.Nodup) (d : Nat) :
    ((sortAllgather me g).construct.getD d default).runid =
      if d ∈ me.ownsort ∧ d < me.construct.length then
        (((me.ownsort.insertionSort (cnodeLe me.construct)).indexOf d : Nat) : Int)
      else (me.construct.getD d default).runid := by
  unfold sortAllgather
  dsimp only
  rw [numberOwned_runid _ _ _ _ ((List.perm_insertionSort _ _).nodup_iff.mpr hnd)]
  simp only [(List.perm_insertionSort (cnodeLe me.construct) me.ownsort).mem_iff, Nat.zero_add]

end sortAllgather


/-- `cnode_compare (c1, c2) < 0`: the owner slots compared lexicographically, strictly.
Source: `cnode_compare` (part_000 ll. 700–727)
Kind: D -/
def cnodeLt (cs : List Cnode) (a b : Nat) : Prop :=
  (slotKey cs a).1 < (slotKey cs b).1 ∨
    ((slotKey cs a).1 = (slotKey cs b).1 ∧ (slotKey cs a).2 < (slotKey cs b).2)

instance (cs : List Cnode) : DecidableRel (cnodeLt cs) := fun _ _ =>
  inferInstanceAs (Decidable (_ ∨ _))

/-- Sorting owned candidates with pairwise distinct owner slots puts each at the number of
candidates with a smaller slot.
Source: `sort_allgather` (part_000 ll. 832–841)
Kind: L -/
lemma indexOf_insertionSort_cnodeLe (cs : List Cnode) (l : List Nat) (hnd : l.Nodup)
    (hinj : ∀ a ∈ l, ∀ b ∈ l, slotKey cs a = slotKey cs b → a = b) {c : Nat} (hc : c ∈ l) :
    (l.insertionSort (cnodeLe cs)).indexOf c = (l.filter (cnodeLt cs · c)).length := by
  have hperm := List.perm_insertionSort (cnodeLe cs) l
  have hsorted : (l.insertionSort (cnodeLe cs)).Pairwise (cnodeLt cs) := by
    refine ((List.sorted_insertionSort (cnodeLe cs) l).and (hperm.nodup_iff.mpr hnd)).imp_of_mem
      fun {a b} ha hb ⟨hle, hne⟩ => ?_
    have hk : slotKey cs a ≠ slotKey cs b := fun h' =>
      hne (hinj a (hperm.subset ha) b (hperm.subset hb) h')
    unfold cnodeLe at hle
    unfold cnodeLt
    rcases hle with h1 | ⟨h1, h2⟩
    · exact .inl h1
    · exact .inr ⟨h1, Nat.lt_of_le_of_ne h2 fun h3 => hk (Prod.ext h1 h3)⟩
  rw [indexOf_eq_length_filter (cnodeLt cs) (fun a => by simp [cnodeLt])
    (fun a b => by unfold cnodeLt; omega) _ hsorted c (hperm.symm.subset hc)]
  exact (hperm.filter _).length_eq


/-! ## `sort_peers` -/

/-- The contribution of a peer to the `shacumul` of the peers after it: its `bufcount` if it
is lower than `mpirank`.
Source: `sort_peers` (part_000 ll. 945–948)
Kind: D -/
def lowerCount (mpirank : Nat) (p : Peer) : Nat := if p.rank < mpirank then p.bufcount else 0

lemma getD_set_shacumul (ps : List Peer) (i j a : Nat) :
    ((ps.set i { ps.getD i default with shacumul := a }).getD j default).rank =
      (ps.getD j default).rank ∧
    ((ps.set i { ps.getD i default with shacumul := a }).getD j default).bufcount =
      (ps.getD j default).bufcount := by
  rw [getD_set]
  split_ifs with h
  · rw [h.1]; exact ⟨rfl, rfl⟩
  · exact ⟨rfl, rfl⟩

/-- `setShacumul` gives each visited peer the count of the lower peers visited before it.
Source: `sort_peers` (part_000 ll. 942–949)
Kind: L -/
lemma setShacumul_getD (r : Nat) : ∀ (is : List Nat) (ps : List Peer) (acc j : Nat), is.Nodup →
    (setShacumul r ps is acc).getD j default =
      if j ∈ is ∧ j < ps.length then
        { ps.getD j default with shacumul :=
            acc + ((is.takeWhile (· ≠ j)).map fun i => lowerCount r (ps.getD i default)).sum }
      else ps.getD j default
  | [], ps, acc, j, _ => by simp [setShacumul]
  | i :: is, ps, acc, j, hnd => by
    rw [List.nodup_cons] at hnd
    have hw : ∀ k, lowerCount r ((ps.set i { ps.getD i default with shacumul := acc }).getD k
        default) = lowerCount r (ps.getD k default) := fun k => by
      simp only [lowerCount, (getD_set_shacumul ps i k acc).1, (getD_set_shacumul ps i k acc).2]
    rw [setShacumul, setShacumul_getD r is _ _ j hnd.2, List.length_set]
    simp only [hw]
    rw [getD_set]
    by_cases hji : j = i
    · subst hji
      simp [hnd.1, lowerCount]
    · by_cases hj : j ∈ is ∧ j < ps.length
      · simp [hj, Ne.symm hji, hji, lowerCount]
        split_ifs <;> omega
      · simp [hj, Ne.symm hji, hji]


/-- In a list strictly sorted by `lt`, the elements before `c` are those below it.
Source: none: infrastructure
Kind: L -/
lemma takeWhile_ne_eq_filter {α : Type} [DecidableEq α] (lt : α → α → Prop) [DecidableRel lt]
    (hirr : ∀ a, ¬ lt a a) (hasymm : ∀ a b, lt a b → ¬ lt b a) :
    ∀ (l : List α), l.Pairwise lt → ∀ c ∈ l, l.takeWhile (· ≠ c) = l.filter (lt · c)
  | [], _, c, hc => absurd hc (List.not_mem_nil c)
  | a :: t, hp, c, hc => by
    rw [List.pairwise_cons] at hp
    by_cases hca : a = c
    · subst hca
      rw [List.takeWhile_cons_of_neg (by simp), List.filter_cons_of_neg (by simpa using hirr a),
        eq_comm, List.filter_eq_nil_iff]
      exact fun b hb h' => hasymm _ _ (hp.1 b hb) (by simpa using h')
    · have hct : c ∈ t := (List.mem_cons.mp hc).resolve_left (Ne.symm hca)
      rw [List.takeWhile_cons_of_pos (by simpa using hca),
        List.filter_cons_of_pos (by simpa using hp.1 c hct),
        takeWhile_ne_eq_filter lt hirr hasymm t hp.2 c hct]

lemma map_getD_range {α : Type} (l : List α) (d : α) :
    (List.range l.length).map (l.getD · d) = l :=
  List.ext_getElem (by simp) fun i h1 h2 => by
    simp [List.getElem?_eq_getElem h2]

lemma sum_filter_range {α : Type} (l : List α) (d : α) (P : α → Prop) [DecidablePred P]
    (w : α → Nat) :
    (((List.range l.length).filter fun i => P (l.getD i d)).map fun i => w (l.getD i d)).sum =
      ((l.filter P).map w).sum := by
  conv_rhs => rw [← map_getD_range l d]
  rw [List.filter_map, List.map_map]
  rfl

/-- The sum of `shacumul`: the `bufcount` of the peers below rank `q` and below `mpirank`.
Source: `sort_peers` (part_000 ll. 942–949)
Kind: D -/
def shacumulOf (ps : List Peer) (mpirank q : Nat) : Nat :=
  ((ps.filter fun p => p.rank < q ∧ p.rank < mpirank).map (·.bufcount)).sum

lemma sum_lowerCount_filter (r q : Nat) : ∀ ps : List Peer,
    ((ps.filter (·.rank < q)).map (lowerCount r)).sum = shacumulOf ps r q
  | [] => rfl
  | p :: ps => by
    have ih := sum_lowerCount_filter r q ps
    unfold shacumulOf at ih ⊢
    by_cases h1 : p.rank < q <;> by_cases h2 : p.rank < r <;>
      simp [List.filter_cons, h1, h2, lowerCount, ih]

/-- With distinct ranks, `sort_peers` lists the peer indices by strictly increasing rank.
Source: `sort_peers` (part_000 ll. 930–933)
Kind: L -/
lemma sortp_pairwise_rank (ps : List Peer) (hnd : (ps.map (·.rank)).Nodup) :
    ((List.range ps.length).insertionSort (peerLe ps)).Pairwise
      fun a b => (ps.getD a default).rank < (ps.getD b default).rank := by
  have hperm := List.perm_insertionSort (peerLe ps) (List.range ps.length)
  refine ((List.sorted_insertionSort (peerLe ps) _).and (hperm.nodup_iff.mpr
    (List.nodup_range _))).imp_of_mem fun {a b} ha hb ⟨hle, hne⟩ => ?_
  have ha' := List.mem_range.mp (hperm.subset ha)
  have hb' := List.mem_range.mp (hperm.subset hb)
  refine Nat.lt_of_le_of_ne hle fun h => hne ?_
  rw [List.getD_eq_getElem _ _ ha', List.getD_eq_getElem _ _ hb'] at h
  exact (@List.Nodup.getElem_inj_iff _ _ hnd a (by simpa using ha') b (by simpa using hb')).mp
    (by simpa using h)

/-- The peers visited before `j` by the rank order of `sort_peers` are those of smaller rank.
Source: `sort_peers` (part_000 ll. 930–949)
Kind: L -/
lemma sum_takeWhile_sortp (ps : List Peer) (r : Nat) (hnd : (ps.map (·.rank)).Nodup) {j : Nat}
    (hj : j < ps.length) :
    ((((List.range ps.length).insertionSort (peerLe ps)).takeWhile (· ≠ j)).map
      fun i => lowerCount r (ps.getD i default)).sum = shacumulOf ps r (ps.getD j default).rank := by
  set sp := (List.range ps.length).insertionSort (peerLe ps)
  have hperm : sp.Perm (List.range ps.length) := List.perm_insertionSort _ _
  rw [takeWhile_ne_eq_filter (fun a b => (ps.getD a default).rank < (ps.getD b default).rank)
    (fun a => Nat.lt_irrefl _) (fun a b => Nat.lt_asymm) sp (sortp_pairwise_rank ps hnd) j
    (hperm.symm.subset (List.mem_range.mpr hj)), ← sum_lowerCount_filter,
    ((hperm.filter _).map _).sum_eq]
  exact sum_filter_range ps default (fun p => p.rank < (ps.getD j default).rank) _


lemma foldl_pushPeerSharer_eq : ∀ (is : List Nat) (m : TnodesMeta),
    is.foldl pushPeerSharer m = { m with
      sharers := (is.foldl pushPeerSharer m).sharers
      peers := (is.foldl pushPeerSharer m).peers }
  | [], _ => rfl
  | i :: is, m => by rw [List.foldl_cons, foldl_pushPeerSharer_eq is]; rfl

lemma foldl_pushPeerSharer_length : ∀ (is : List Nat) (m : TnodesMeta),
    (is.foldl pushPeerSharer m).peers.length = m.peers.length
  | [], _ => rfl
  | i :: is, m => by
    rw [List.foldl_cons, foldl_pushPeerSharer_length is]
    simp [pushPeerSharer, pushSharer]

/-- Pushing the sharer records changes the peer records in `sharind` only.
Source: `sort_peers` (part_000 ll. 958–974)
Kind: L -/
lemma foldl_pushPeerSharer_getD : ∀ (is : List Nat) (m : TnodesMeta) (j : Nat),
    (is.foldl pushPeerSharer m).peers.getD j default =
      { m.peers.getD j default with
        sharind := ((is.foldl pushPeerSharer m).peers.getD j default).sharind }
  | [], _, _ => rfl
  | i :: is, m, j => by
    rw [List.foldl_cons, foldl_pushPeerSharer_getD is]
    simp only [pushPeerSharer, pushSharer, getD_set]
    split_ifs with h
    · rw [h.1]
    · rfl

lemma setShacumul_length (r : Nat) : ∀ (is : List Nat) (ps : List Peer) (acc : Nat),
    (setShacumul r ps is acc).length = ps.length
  | [], _, _ => rfl
  | i :: is, ps, acc => by rw [setShacumul, setShacumul_length r is, List.length_set]

section sortPeers

variable (me : TnodesMeta) (hg : me.ghost ≠ none) (hp : me.peers ≠ [])
include hg hp

lemma sortPeers_eq : sortPeers me = { me with
    sortp := (List.range me.peers.length).insertionSort (peerLe me.peers),
    peers := (sortPeers me).peers, sharers := (sortPeers me).sharers,
    locsharer := (sortPeers me).locsharer } := by
  unfold sortPeers
  rw [if_neg (by tauto)]
  dsimp only
  rw [foldl_pushPeerSharer_eq, foldl_pushPeerSharer_eq (List.takeWhile _ _)]
  rfl

lemma sortPeers_getD (j : Nat) : (sortPeers me).peers.getD j default =
    { (setShacumul me.mpirank me.peers
        ((List.range me.peers.length).insertionSort (peerLe me.peers)) 0).getD j default with
      sharind := ((sortPeers me).peers.getD j default).sharind } := by
  unfold sortPeers
  rw [if_neg (by tauto)]
  dsimp only
  rw [foldl_pushPeerSharer_getD]
  simp only [pushSharer]
  rw [foldl_pushPeerSharer_getD]

/-- **What `sort_peers` does to the peer records**: each gets the `bufcount` sum of the lower
peers of smaller rank as `shacumul`, and a sharer index.
Source: `sort_peers` (part_000 ll. 922–977)
Kind: L -/
lemma sortPeers_peers (hnd : (me.peers.map (·.rank)).Nodup) :
    (sortPeers me).peers.length = me.peers.length ∧
    ∀ j < me.peers.length, (sortPeers me).peers.getD j default =
      { me.peers.getD j default with
        shacumul := shacumulOf me.peers me.mpirank (me.peers.getD j default).rank,
        sharind := ((sortPeers me).peers.getD j default).sharind } := by
  refine ⟨?_, fun j hj => ?_⟩
  · unfold sortPeers
    rw [if_neg (by tauto)]
    dsimp only
    rw [foldl_pushPeerSharer_length]
    simp only [pushSharer, foldl_pushPeerSharer_length, setShacumul_length]
  · have hspnd : ((List.range me.peers.length).insertionSort (peerLe me.peers)).Nodup :=
      (List.perm_insertionSort _ _).nodup_iff.mpr (List.nodup_range _)
    have hmem : j ∈ (List.range me.peers.length).insertionSort (peerLe me.peers) :=
      (List.perm_insertionSort _ _).symm.subset (List.mem_range.mpr hj)
    rw [sortPeers_getD me hg hp, setShacumul_getD _ _ _ _ _ hspnd, if_pos ⟨hmem, hj⟩,
      sum_takeWhile_sortp _ _ hnd hj, Nat.zero_add]

end sortPeers

end P4estTnodes
