import P4estTnodes.Layout

/-!
# The sharer records: `sort_peers` and `populate_sharers`

For processes whose traversal results are consistent views of one mesh (`ConsistentViews`,
`Traversed`), this file describes the sharer records `p4est_tnodes_new` leaves on a process that
shares a node with another process (`OwnedSharers`):

* `populateSharers_ownedSharers`: there is one record for the process and one for each peer, in
  increasing rank order, the process's own at `locsharer`; the entries of a record are
  increasing, and below `num_owned` they are the local numbers of the owned nodes with more than
  one contributor, the record's rank among them, counted by `shared_mine_count` from offset 0;
  `owned_offset` and `owned_count` delimit the local numbers of the nodes the record's rank owns:
  the owned nodes for the process's own record, the peer's block for a lower peer, nothing for a
  higher one.

The proof route. `sort_peers` splits the peers at the process's rank and pushes a record for the
lower peers, the process and the higher peers in this order, each peer pointing at its record
(`sortPeers_sharerTable`); the exchange keeps the table (`exchange_sharerTable`), so
`peer_sharer` finds the record of each contributor rank (`SharerTable.sharerOf_spec`). The loop
over the owned nodes then gives each record the entries `ownedSharedWith` of its rank
(`foldl_populateOwned_getD`), the loop over `sortp` sets the offsets and counts
(`SharerTable.foldl_setSharerCounts`), and the loop over the shared-in nodes only appends
increasing entries from `num_owned` on (`PushedAbove.foldl_populatePeer`); together every record
ends filled (`SharerTable.populateSharers_filled`). The owned entries are read back by candidate
through the numbering of `sort_allgather` (`mem_ownedSharedWith_iff`), the count of the process's
own through `num_owned_shared` (`length_ownedSharedWith_self`), and the owned ranges through the
blocks of the local numbering (`peerBlock_mem`, `peerBlock_surj`).

The entries from `num_owned` on are not described here beyond their order: the code pushes each
shared-in node into the record of the last contributor of its list only
(`populateSharers_sharedIn_twoRanks` in `System` is a run where a sharer's record misses them).
-/

namespace P4estTnodes

/-! ## Records of a list updated in place -/

lemma getD_modify {α : Type} [Inhabited α] (f : α → α) (l : List α) (i k : Nat) :
    (l.modify f i).getD k default =
      if i = k ∧ k < l.length then f (l.getD k default) else l.getD k default := by
  rw [List.modify_eq_set, getD_set, ← List.getD_eq_getElem?_getD]
  split_ifs with h
  · rw [h.1]
  · rfl

lemma getD_mem {α : Type} [Inhabited α] {l : List α} {i : Nat} (hi : i < l.length) :
    l.getD i default ∈ l := by
  rw [List.getD_eq_getElem _ _ hi]; exact List.getElem_mem hi

/-- Positions of a list with distinct keys are told apart by their keys. -/
lemma getD_inj_of_nodup {α β : Type} [Inhabited α] [Inhabited β] (f : α → β) {l : List α}
    (hnd : (l.map f).Nodup) {i j : Nat} (hi : i < l.length) (hj : j < l.length)
    (he : f (l.getD i default) = f (l.getD j default)) : i = j := by
  rw [← getD_map_of_lt f hi, ← getD_map_of_lt f hj, List.getD_eq_getElem _ _ (by simpa using hi),
    List.getD_eq_getElem _ _ (by simpa using hj)] at he
  exact hnd.getElem_inj_iff.mp he

/-! ## The records of `sort_peers` -/

/-- The peer record at index `j` names a sharer record of its own rank.
Source: `sort_peers` (part_000 ll. 958–974)
Kind: D -/
def TnodesMeta.PointsTo (me : TnodesMeta) (j : Nat) : Prop :=
  (me.peers.getD j default).sharind < me.sharers.length ∧
    (me.sharers.getD (me.peers.getD j default).sharind default).rank =
      (me.peers.getD j default).rank

@[simp] lemma pushPeerSharer_sharers (me : TnodesMeta) (i : Nat) :
    (pushPeerSharer me i).sharers = me.sharers ++ [Sharer.new (me.peers.getD i default).rank] :=
  rfl

@[simp] lemma pushPeerSharer_locsharer (me : TnodesMeta) (i : Nat) :
    (pushPeerSharer me i).locsharer = me.locsharer := rfl

@[simp] lemma pushPeerSharer_length (me : TnodesMeta) (i : Nat) :
    (pushPeerSharer me i).peers.length = me.peers.length := List.length_set _ _ _

lemma pushPeerSharer_getD (me : TnodesMeta) (i j : Nat) :
    (pushPeerSharer me i).peers.getD j default =
      if i = j ∧ j < me.peers.length then
        { me.peers.getD j default with sharind := me.sharers.length }
      else me.peers.getD j default := by
  simp only [pushPeerSharer, pushSharer, getD_set]
  split_ifs with h
  · rw [h.1]
  · rfl

@[simp] lemma pushPeerSharer_rank (me : TnodesMeta) (i j : Nat) :
    ((pushPeerSharer me i).peers.getD j default).rank = (me.peers.getD j default).rank := by
  rw [pushPeerSharer_getD]; split_ifs <;> rfl

/-- Pushing the record of peer `i` points `i` at it and keeps every other pointer.
Source: `sort_peers` (part_000 ll. 958–974)
Kind: L -/
lemma pointsTo_pushPeerSharer {me : TnodesMeta} {i j : Nat}
    (h : (i = j ∧ j < me.peers.length) ∨ me.PointsTo j) : (pushPeerSharer me i).PointsTo j := by
  unfold TnodesMeta.PointsTo
  rw [pushPeerSharer_getD, pushPeerSharer_sharers, List.length_append, List.length_singleton]
  split_ifs with hij
  · rw [List.getD_append_right _ _ _ _ le_rfl, Nat.sub_self, hij.1]
    exact ⟨Nat.lt_succ_self _, rfl⟩
  · obtain ⟨h1, h2⟩ := h.resolve_left hij
    rw [List.getD_append _ _ _ _ h1]
    exact ⟨Nat.lt_succ_of_lt h1, h2⟩

lemma foldl_pushPeerSharer_sharers : ∀ (is : List Nat) (m : TnodesMeta),
    (is.foldl pushPeerSharer m).sharers =
      m.sharers ++ is.map fun i => Sharer.new (m.peers.getD i default).rank
  | [], m => (List.append_nil _).symm
  | i :: is, m => by
    rw [List.foldl_cons, foldl_pushPeerSharer_sharers is, List.map_cons]
    simp only [pushPeerSharer_rank, pushPeerSharer_sharers, List.append_assoc,
      List.singleton_append]

lemma foldl_pushPeerSharer_pointsTo : ∀ (is : List Nat) (m : TnodesMeta) (j : Nat),
    (j ∈ is ∧ j < m.peers.length) ∨ m.PointsTo j → (is.foldl pushPeerSharer m).PointsTo j
  | [], m, j, h => h.resolve_left fun h' => List.not_mem_nil j h'.1
  | i :: is, m, j, h => by
    rw [List.foldl_cons]
    refine foldl_pushPeerSharer_pointsTo is _ j ?_
    by_cases hj : j ∈ is ∧ j < m.peers.length
    · exact .inl ⟨hj.1, by rw [pushPeerSharer_length]; exact hj.2⟩
    · refine .inr (pointsTo_pushPeerSharer ?_)
      rcases h with ⟨hm, hl⟩ | h
      · rcases List.mem_cons.mp hm with rfl | hm
        · exact .inl ⟨rfl, hl⟩
        · exact absurd ⟨hm, hl⟩ hj
      · exact .inr h

/-- The records `sort_peers` pushes for a split of the peer indices into `lower` and `higher`:
the lower peers' records, the process's own record at `locsharer`, the higher peers' records.
Source: `sort_peers` (part_000 ll. 951–974)
Kind: L -/
lemma sortPeers_fold (m : TnodesMeta) (lower higher : List Nat) (r : Nat) :
    (higher.foldl pushPeerSharer { (pushSharer (lower.foldl pushPeerSharer m) r).1 with
        locsharer := (pushSharer (lower.foldl pushPeerSharer m) r).2 }).sharers =
      m.sharers ++ lower.map (fun i => Sharer.new (m.peers.getD i default).rank) ++
        Sharer.new r :: higher.map (fun i => Sharer.new (m.peers.getD i default).rank) ∧
    (higher.foldl pushPeerSharer { (pushSharer (lower.foldl pushPeerSharer m) r).1 with
        locsharer := (pushSharer (lower.foldl pushPeerSharer m) r).2 }).locsharer =
      m.sharers.length + lower.length ∧
    ∀ j < m.peers.length, j ∈ lower ∨ j ∈ higher →
      (higher.foldl pushPeerSharer { (pushSharer (lower.foldl pushPeerSharer m) r).1 with
        locsharer := (pushSharer (lower.foldl pushPeerSharer m) r).2 }).PointsTo j := by
  have hlen : (lower.foldl pushPeerSharer m).peers.length = m.peers.length :=
    foldl_pushPeerSharer_length lower m
  have hrk : ∀ i, ((lower.foldl pushPeerSharer m).peers.getD i default).rank =
      (m.peers.getD i default).rank := fun i => by rw [foldl_pushPeerSharer_getD]
  refine ⟨?_, ?_, fun j hj hmem => foldl_pushPeerSharer_pointsTo _ _ j ?_⟩
  · rw [foldl_pushPeerSharer_sharers]
    simp only [pushSharer, foldl_pushPeerSharer_sharers, hrk, List.append_assoc,
      List.singleton_append]
  · rw [foldl_pushPeerSharer_eq]
    simp only [pushSharer, foldl_pushPeerSharer_sharers, List.length_append, List.length_map]
  · rcases hmem with hl | hh
    · refine .inr ?_
      have h2 := foldl_pushPeerSharer_pointsTo lower m j (.inl ⟨hl, hj⟩)
      unfold TnodesMeta.PointsTo at h2 ⊢
      simp only [pushSharer, List.length_append, List.length_singleton]
      rw [List.getD_append _ _ _ _ h2.1]
      exact ⟨Nat.lt_succ_of_lt h2.1, h2.2⟩
    · exact .inl ⟨hh, by simpa [pushSharer] using hlen.symm ▸ hj⟩

lemma setShacumul_rank (r : Nat) : ∀ (is : List Nat) (ps : List Peer) (acc j : Nat),
    ((setShacumul r ps is acc).getD j default).rank = (ps.getD j default).rank
  | [], _, _, _ => rfl
  | i :: is, ps, acc, j => (setShacumul_rank r is _ _ j).trans (getD_set_shacumul ps i j acc).1

/-- In a list ordered by `R`, a test that stays false along `R` is false past the prefix where
it holds.
Source: none: infrastructure
Kind: L -/
lemma forall_mem_dropWhile {α : Type} (p : α → Bool) (R : α → α → Prop)
    (hmono : ∀ a b, R a b → p a = false → p b = false) :
    ∀ l : List α, l.Pairwise R → ∀ x ∈ l.dropWhile p, p x = false
  | [], _, x, hx => absurd hx (List.not_mem_nil x)
  | a :: l, hl, x, hx => by
    rw [List.pairwise_cons] at hl
    by_cases ha : p a = true
    · rw [List.dropWhile_cons_of_pos ha] at hx
      exact forall_mem_dropWhile p R hmono l hl.2 x hx
    · rw [List.dropWhile_cons_of_neg ha] at hx
      have ha' : p a = false := by simpa using ha
      rcases List.mem_cons.mp hx with rfl | hx
      · exact ha'
      · exact hmono a x (hl.1 x hx) ha'

lemma sortPeers_ranks (me : TnodesMeta) :
    (sortPeers me).peers.map (·.rank) = me.peers.map (·.rank) := by
  by_cases hc : me.ghost = none ∨ me.peers = []
  · unfold sortPeers; rw [if_pos hc]
  · rw [not_or] at hc
    refine map_eq_of_getD _ ?_ fun j _ => by rw [sortPeers_getD me hc.1 hc.2, setShacumul_rank]
    unfold sortPeers
    rw [if_neg (not_or.mpr hc)]
    dsimp only
    rw [foldl_pushPeerSharer_length]
    simp only [pushSharer, foldl_pushPeerSharer_length, setShacumul_length]

/-- The sharer records as `sort_peers` leaves them: their ranks strictly increasing, one record
of the process's rank, at `locsharer`, and one of each peer rank, every peer pointing at the
record of its rank; the peer ranks are distinct and other than the process's.
Source: `sort_peers` (part_000 ll. 922–977), `push_sharer` (ll. 903–918)
Kind: D -/
structure SharerTable (me : TnodesMeta) : Prop where
  sorted : (me.sharers.map (·.rank)).Sorted (· < ·)
  ranks : ∀ q, q ∈ me.sharers.map (·.rank) ↔ q = me.mpirank ∨ q ∈ me.peers.map (·.rank)
  loc : me.locsharer < me.sharers.length ∧
    (me.sharers.getD me.locsharer default).rank = me.mpirank
  peer : ∀ j < me.peers.length, me.PointsTo j
  peerRanks : (me.peers.map (·.rank)).Nodup
  self : me.mpirank ∉ me.peers.map (·.rank)

/-- The table only reads the ranks of the sharer records, the process's rank and record, and
the ranks and sharer indices of the peers.
Source: none: infrastructure
Kind: L -/
lemma SharerTable.congr {m m' : TnodesMeta} (h : SharerTable m)
    (hsl : m'.sharers.length = m.sharers.length)
    (hs : ∀ k, (m'.sharers.getD k default).rank = (m.sharers.getD k default).rank)
    (hl : m'.locsharer = m.locsharer) (hr : m'.mpirank = m.mpirank)
    (hpl : m'.peers.length = m.peers.length)
    (hp : ∀ j, (m'.peers.getD j default).rank = (m.peers.getD j default).rank ∧
      (m'.peers.getD j default).sharind = (m.peers.getD j default).sharind) : SharerTable m' := by
  have hmap : m'.peers.map (·.rank) = m.peers.map (·.rank) :=
    map_eq_of_getD _ hpl fun j _ => (hp j).1
  have hsmap : m'.sharers.map (·.rank) = m.sharers.map (·.rank) :=
    map_eq_of_getD _ hsl fun k _ => hs k
  refine ⟨hsmap ▸ h.sorted, fun q => ?_, ?_, fun j hj => ?_, hmap ▸ h.peerRanks, hr ▸ hmap ▸ h.self⟩
  · rw [hsmap, hmap, hr]; exact h.ranks q
  · rw [hsl, hs, hl, hr]; exact h.loc
  · have := h.peer j (hpl ▸ hj)
    unfold TnodesMeta.PointsTo at this ⊢
    rw [hsl, hs, (hp j).1, (hp j).2]
    exact this

/-- **The records of `sort_peers`.** On a process with a ghost layer, peers of distinct ranks
other than its own and no sharer record yet, `sort_peers` leaves the table `SharerTable`.
Source: `sort_peers` (part_000 ll. 922–977)
Kind: L -/
theorem sortPeers_sharerTable (me : TnodesMeta) (hg : me.ghost ≠ none) (hp : me.peers ≠ [])
    (hnd : (me.peers.map (·.rank)).Nodup) (hself : me.mpirank ∉ me.peers.map (·.rank))
    (hs : me.sharers = []) :
    SharerTable (sortPeers me) ∧ ∀ s ∈ (sortPeers me).sharers, s.sharedNodes = [] := by
  set rk := fun j => (me.peers.getD j default).rank
  set sp := (List.range me.peers.length).insertionSort (peerLe me.peers)
  set ps1 := setShacumul me.mpirank me.peers sp 0
  have hps1 : ∀ j, (ps1.getD j default).rank = rk j := setShacumul_rank _ _ _ _
  set P := fun i => !decide (me.mpirank < (ps1.getD i default).rank)
  have hperm : sp.Perm (List.range me.peers.length) := List.perm_insertionSort _ _
  have hsp : sp.Pairwise fun a b => rk a < rk b := sortp_pairwise_rank me.peers hnd
  have hlow : ∀ i ∈ sp.takeWhile P, rk i < me.mpirank := fun i hi => by
    have h1 := List.mem_takeWhile_imp hi
    have h2 : i < me.peers.length :=
      List.mem_range.mp (hperm.subset ((List.takeWhile_prefix P).subset hi))
    have h3 : rk i ≠ me.mpirank := fun h => hself (List.mem_map.mpr ⟨_, getD_mem h2, h⟩)
    simp only [P, hps1, Bool.not_eq_true', decide_eq_false_iff_not, not_lt] at h1
    omega
  have hhigh : ∀ i ∈ sp.dropWhile P, me.mpirank < rk i := fun i hi => by
    have := forall_mem_dropWhile P _ (fun a b hab ha => by
      simp only [P, hps1, Bool.not_eq_false', decide_eq_true_eq] at ha ⊢
      exact ha.trans hab) sp hsp i hi
    simpa only [P, hps1, Bool.not_eq_false', decide_eq_true_eq] using this
  have e : sortPeers me = (sp.dropWhile P).foldl pushPeerSharer
      { (pushSharer ((sp.takeWhile P).foldl pushPeerSharer { me with sortp := sp, peers := ps1 })
          me.mpirank).1 with
        locsharer := (pushSharer ((sp.takeWhile P).foldl pushPeerSharer
          { me with sortp := sp, peers := ps1 }) me.mpirank).2 } := by
    unfold sortPeers
    rw [if_neg (not_or.mpr ⟨hg, hp⟩)]
  obtain ⟨hsh, hloc, hpt⟩ := sortPeers_fold { me with sortp := sp, peers := ps1 } (sp.takeWhile P)
    (sp.dropWhile P) me.mpirank
  have hlen : (sortPeers me).peers.length = me.peers.length := (sortPeers_peers me hg hp hnd).1
  have hmap : (sortPeers me).peers.map (·.rank) = me.peers.map (·.rank) :=
    map_eq_of_getD _ hlen fun j _ => by rw [sortPeers_getD me hg hp, setShacumul_rank]
  have hrank : (sortPeers me).mpirank = me.mpirank := (keeps_sortPeers me).mpirank
  have hranks : (sortPeers me).sharers.map (·.rank) =
      (sp.takeWhile P).map rk ++ me.mpirank :: (sp.dropWhile P).map rk := by
    rw [e, hsh, hs]
    simp only [List.nil_append, List.map_append, List.map_cons, List.map_map, Function.comp_def]
    simp only [Sharer.new, hps1]
  refine ⟨⟨?_, fun q => ?_, ?_, fun j hj => ?_, hmap ▸ hnd, hrank ▸ hmap ▸ hself⟩, ?_⟩
  · rw [hranks, List.Sorted, List.pairwise_append, List.pairwise_cons]
    refine ⟨List.pairwise_map.mpr (hsp.sublist (List.takeWhile_prefix P).sublist),
      ⟨fun b hb => ?_, List.pairwise_map.mpr (hsp.sublist (List.dropWhile_suffix P).sublist)⟩,
      fun a ha b hb => ?_⟩
    · obtain ⟨i, hi, rfl⟩ := List.mem_map.mp hb
      exact hhigh i hi
    · obtain ⟨i, hi, rfl⟩ := List.mem_map.mp ha
      rcases List.mem_cons.mp hb with rfl | hb
      · exact hlow i hi
      · obtain ⟨i', hi', rfl⟩ := List.mem_map.mp hb
        exact (hlow i hi).trans (hhigh i' hi')
  · have hmem : q ∈ sp.map rk ↔ q ∈ me.peers.map (·.rank) := by
      rw [(hperm.map rk).mem_iff]
      conv_rhs => rw [← map_getD_range me.peers default, List.map_map]
      rfl
    have hsplit : sp.map rk = (sp.takeWhile P).map rk ++ (sp.dropWhile P).map rk := by
      rw [← List.map_append, List.takeWhile_append_dropWhile]
    rw [hranks, hrank, hmap, ← hmem, hsplit, List.mem_append, List.mem_append, List.mem_cons]
    exact or_left_comm
  · rw [hrank, e, hsh, hloc]
    simp only [hs, List.nil_append, List.length_nil, Nat.zero_add]
    refine ⟨by simp, ?_⟩
    rw [List.getD_append_right _ _ _ _ (by simp), List.length_map, Nat.sub_self]
    rfl
  · rw [e]
    refine hpt j (by simpa [ps1, setShacumul_length] using hlen ▸ hj) ?_
    rw [← List.mem_append, List.takeWhile_append_dropWhile]
    exact hperm.symm.subset (List.mem_range.mpr (hlen ▸ hj))
  · rw [e, hsh, hs]
    simp only [List.nil_append, List.mem_append, List.mem_map, List.mem_cons]
    rintro s (⟨a, -, rfl⟩ | rfl | ⟨a, -, rfl⟩) <;> rfl

/-! ## The records through the exchange -/

lemma getD_set_sharind (ps : List Peer) (j i : Nat) {p : Peer}
    (hp : p.sharind = (ps.getD j default).sharind) :
    ((ps.set j p).getD i default).sharind = (ps.getD i default).sharind := by
  rw [getD_set]
  split_ifs with h
  · rw [hp, h.1]
  · rfl

section exchange

variable (ms : Nat → TnodesMeta) (r : Nat)

lemma answerStep_sharind (acc : TnodesMeta) (j i : Nat) :
    ((System.answerStep ms r acc j).peers.getD i default).sharind =
      (acc.peers.getD i default).sharind := by
  rcases answerStep_cases ms r acc j with h | ⟨-, -, qp, h⟩ <;> rw [h]
  exact getD_set_sharind _ _ _ (by rfl)

lemma receiveStep_sharind (acc : TnodesMeta) (j i : Nat) :
    ((System.receiveStep ms r acc j).peers.getD i default).sharind =
      (acc.peers.getD i default).sharind := by
  dsimp only [System.receiveStep]
  split_ifs
  · simp only [receiveReply, processReply, storeNonlocal_peers, repliedState_peers]
    exact (getD_set_sharind _ _ _ (by rfl)).trans (getD_set_sharind _ _ _ (by rfl))
  · rfl

lemma foldl_sharind (f : TnodesMeta → Nat → TnodesMeta)
    (hf : ∀ acc j i, ((f acc j).peers.getD i default).sharind = (acc.peers.getD i default).sharind) :
    ∀ (l : List Nat) (m : TnodesMeta) (i : Nat),
      ((l.foldl f m).peers.getD i default).sharind = (m.peers.getD i default).sharind
  | [], _, _ => rfl
  | j :: l, m, i => (foldl_sharind f hf l (f m j) i).trans (hf m j i)

/-- The exchange leaves every peer's sharer index alone.
Source: `wait_query_reply` (part_000 ll. 1036–1177)
Kind: L -/
lemma exchange_sharind (i : Nat) :
    ((System.exchange ms r).peers.getD i default).sharind =
      ((System.phase2 ms r).peers.getD i default).sharind :=
  (foldl_sharind _ (receiveStep_sharind ms r) _ _ i).trans
    (foldl_sharind _ (answerStep_sharind ms r) _ _ i)

end exchange

lemma foldl_elementNodesOnly {α : Type} (F : TnodesMeta → α → TnodesMeta)
    (hF : ∀ m a, ∃ en, F m a = { m with elementNodes := en }) :
    ∀ (l : List α) (m : TnodesMeta), ∃ en, l.foldl F m = { m with elementNodes := en }
  | [], m => ⟨m.elementNodes, rfl⟩
  | a :: l, m => by
    obtain ⟨en, e⟩ := hF m a
    obtain ⟨en', e'⟩ := foldl_elementNodesOnly F hF l (F m a)
    exact ⟨en', by rw [List.foldl_cons, e', e]⟩

/-- **Frame of `assign_element_nodes`.** It writes the element nodes and nothing else.
Source: `assign_element_nodes` (part_000 ll. 1212–1285)
Kind: L -/
lemma assignElementNodes_frame (me : TnodesMeta) :
    ∃ en, assignElementNodes me = { me with elementNodes := en } :=
  foldl_elementNodesOnly assignElement
    (fun m _ => foldl_elementNodesOnly _ (fun _ _ => ⟨_, rfl⟩) _ m) _ me

/-! ## Looking up a record: `peer_sharer` -/

namespace SharerTable

variable {me : TnodesMeta} (h : SharerTable me)
include h

/-- Records of one rank are one record. -/
lemma index_eq {k k' : Nat} (hk : k < me.sharers.length) (hk' : k' < me.sharers.length)
    (he : (me.sharers.getD k default).rank = (me.sharers.getD k' default).rank) : k = k' :=
  getD_inj_of_nodup _ h.sorted.nodup hk hk' he

/-- `peer_sharer` finds the record of the process's rank and of every peer rank.
Source: `peer_sharer` (part_000 ll. 174–195)
Kind: L -/
lemma sharerOf_spec {q : Nat} (hq : q = me.mpirank ∨ q ∈ me.peers.map (·.rank)) :
    me.sharerOf q < me.sharers.length ∧ (me.sharers.getD (me.sharerOf q) default).rank = q := by
  unfold TnodesMeta.sharerOf
  split_ifs with hqr
  · subst hqr; exact h.loc
  · obtain ⟨p, hp⟩ : ∃ p, me.peers.find? (·.rank == q) = some p :=
      Option.isSome_iff_exists.mp (List.find?_isSome.mpr (by
        obtain ⟨p, hp, rfl⟩ := List.mem_map.mp (hq.resolve_left hqr)
        exact ⟨p, hp, by simp⟩))
    obtain ⟨j, hj, rfl⟩ := List.mem_iff_getElem.mp (List.mem_of_find?_eq_some hp)
    have hpt := h.peer j hj
    unfold TnodesMeta.PointsTo at hpt
    rw [List.getD_eq_getElem _ _ hj] at hpt
    have hq' : me.peers[j].rank = q := by simpa using List.find?_some hp
    rw [hp, Option.getD_some, ← hq']
    exact hpt

lemma sharerOf_eq_iff {q k : Nat} (hq : q = me.mpirank ∨ q ∈ me.peers.map (·.rank))
    (hk : k < me.sharers.length) : me.sharerOf q = k ↔ (me.sharers.getD k default).rank = q := by
  obtain ⟨hlt, hrk⟩ := h.sharerOf_spec hq
  exact ⟨fun e => e ▸ hrk, fun e => h.index_eq hlt hk (hrk.trans e.symm)⟩

/-- Distinct known ranks name distinct records, so record `k` is named once if its rank is
among them.
Source: `peer_sharer` (part_000 ll. 174–195)
Kind: L -/
lemma count_sharerOf {l : List Nat} (hnd : l.Nodup)
    (hl : ∀ q ∈ l, q = me.mpirank ∨ q ∈ me.peers.map (·.rank)) {k : Nat}
    (hk : k < me.sharers.length) :
    (l.map me.sharerOf).count k = if (me.sharers.getD k default).rank ∈ l then 1 else 0 := by
  have hinj : ∀ x ∈ l, ∀ y ∈ l, me.sharerOf x = me.sharerOf y → x = y := fun x hx y hy hxy => by
    rw [← (h.sharerOf_spec (hl x hx)).2, ← (h.sharerOf_spec (hl y hy)).2, hxy]
  have hmem : k ∈ l.map me.sharerOf ↔ (me.sharers.getD k default).rank ∈ l := by
    rw [List.mem_map]
    constructor
    · rintro ⟨q, hq, rfl⟩
      rwa [(h.sharerOf_spec (hl q hq)).2]
    · exact fun hm => ⟨_, hm, (h.sharerOf_eq_iff (hl _ hm) hk).mpr rfl⟩
  rw [List.count_eq_of_nodup (hnd.map_on hinj), if_congr hmem rfl rfl]

/-- Distinct peers point at distinct records, none of them the process's own. -/
lemma sharind_inj {i j : Nat} (hi : i < me.peers.length) (hj : j < me.peers.length)
    (he : (me.peers.getD i default).sharind = (me.peers.getD j default).sharind) : i = j := by
  have hpi := h.peer i hi
  have hpj := h.peer j hj
  unfold TnodesMeta.PointsTo at hpi hpj
  rw [he, hpj.2] at hpi
  exact (getD_inj_of_nodup _ h.peerRanks hj hi hpi.2).symm

lemma sharind_ne_locsharer {i : Nat} (hi : i < me.peers.length) :
    (me.peers.getD i default).sharind ≠ me.locsharer := fun he => by
  have hpi := h.peer i hi
  unfold TnodesMeta.PointsTo at hpi
  rw [he, h.loc.2] at hpi
  exact h.self (List.mem_map.mpr ⟨_, getD_mem hi, hpi.2.symm⟩)

/-- Every record is the process's own or the record of a peer.
Source: `sort_peers` (part_000 ll. 951–974)
Kind: L -/
lemma eq_loc_or_sharind {k : Nat} (hk : k < me.sharers.length) :
    k = me.locsharer ∨ ∃ i < me.peers.length, (me.peers.getD i default).sharind = k := by
  have hm : (me.sharers.getD k default).rank ∈ me.sharers.map (·.rank) := by
    exact List.mem_map_of_mem _ (getD_mem hk)
  rcases (h.ranks _).mp hm with hr | hr
  · exact .inl (h.index_eq hk h.loc.1 (hr.trans h.loc.2.symm))
  · obtain ⟨p, hp, hpr⟩ := List.mem_map.mp hr
    obtain ⟨i, hi, rfl⟩ := List.mem_iff_getElem.mp hp
    have hpi := h.peer i hi
    unfold TnodesMeta.PointsTo at hpi
    rw [List.getD_eq_getElem _ _ hi] at hpi
    exact .inr ⟨i, hi, by
      rw [List.getD_eq_getElem _ _ hi]
      exact h.index_eq hpi.1 hk (hpi.2.trans hpr)⟩

end SharerTable

/-! ## `populate_sharers`: the owned nodes -/

@[simp] lemma pushShared_sharerOf (me : TnodesMeta) (si v q : Nat) :
    (me.pushShared si v).sharerOf q = me.sharerOf q := rfl

lemma pushShared_getD (me : TnodesMeta) (si v k : Nat) :
    (me.pushShared si v).sharers.getD k default =
      if si = k ∧ k < me.sharers.length then
        { me.sharers.getD k default with
          sharedNodes := (me.sharers.getD k default).sharedNodes ++ [v] }
      else me.sharers.getD k default :=
  getD_modify _ _ _ _

lemma foldl_pushShared_getD (v : Nat) : ∀ (is : List Nat) (me : TnodesMeta) (k : Nat),
    (is.foldl (fun m si => m.pushShared si v) me).sharers.getD k default =
      if k < me.sharers.length then
        { me.sharers.getD k default with
          sharedNodes := (me.sharers.getD k default).sharedNodes ++ List.replicate (is.count k) v }
      else me.sharers.getD k default
  | [], me, k => by split_ifs <;> simp
  | i :: is, me, k => by
    rw [List.foldl_cons, foldl_pushShared_getD v is, pushShared_getD]
    simp only [TnodesMeta.pushShared, List.length_modify, List.count_cons, beq_iff_eq]
    by_cases hk : k < me.sharers.length
    · by_cases hi : i = k
      · simp [hk, hi, List.replicate_succ]
      · simp [hk, hi]
    · simp [hk]

lemma foldl_pushShared_sharerOf (v : Nat) : ∀ (l : List Contr) (me : TnodesMeta),
    l.foldl (fun m e => m.pushShared (m.sharerOf e.rank) v) me =
      (l.map fun e => me.sharerOf e.rank).foldl (fun m si => m.pushShared si v) me
  | [], _ => rfl
  | e :: l, me => by
    rw [List.foldl_cons, foldl_pushShared_sharerOf v l, List.map_cons, List.foldl_cons]
    rfl

/-- A loop whose body changes the sharer records only, and not their number.
Source: none: infrastructure
Kind: L -/
lemma foldl_sharersOnly {α : Type} (F : TnodesMeta → α → TnodesMeta)
    (hF : ∀ m a, ∃ sh, F m a = { m with sharers := sh } ∧ sh.length = m.sharers.length) :
    ∀ (l : List α) (m : TnodesMeta),
      ∃ sh, l.foldl F m = { m with sharers := sh } ∧ sh.length = m.sharers.length
  | [], m => ⟨m.sharers, rfl, rfl⟩
  | a :: l, m => by
    obtain ⟨sh, e, hl⟩ := hF m a
    obtain ⟨sh', e', hl'⟩ := foldl_sharersOnly F hF l (F m a)
    refine ⟨sh', by rw [List.foldl_cons, e', e], ?_⟩
    rw [hl', e, hl]

lemma pushShared_frame (m : TnodesMeta) (si v : Nat) :
    ∃ sh, m.pushShared si v = { m with sharers := sh } ∧ sh.length = m.sharers.length :=
  ⟨_, rfl, List.length_modify _ _ _⟩

lemma populateOwned_frame (me : TnodesMeta) (lcl c : Nat) :
    ∃ sh, populateOwned me lcl c = { me with sharers := sh } ∧ sh.length = me.sharers.length := by
  unfold populateOwned
  dsimp only
  split_ifs
  · exact ⟨me.sharers, rfl, rfl⟩
  · exact foldl_sharersOnly _ (fun m e => pushShared_frame m _ lcl) _ me

/-- The contributor ranks of candidate `c` are distinct and known to the sharer table: the
process's own or a peer's.
Source: none: infrastructure
Kind: D -/
def TnodesMeta.KnownRanks (me : TnodesMeta) (c : Nat) : Prop :=
  (me.construct.getD c default).ranks.Nodup ∧
    ∀ q ∈ (me.construct.getD c default).ranks, q = me.mpirank ∨ q ∈ me.peers.map (·.rank)

/-- **One owned node of `populate_sharers`.** Its local number `lcl` goes into the record of each
contributor rank, unless the node has one contributor.
Source: `populate_sharers` (part_000 ll. 1312–1334)
Kind: L -/
lemma SharerTable.populateOwned_getD {me : TnodesMeta} (h : SharerTable me) (lcl : Nat) {c : Nat}
    (hc : me.KnownRanks c) (k : Nat) :
    (populateOwned me lcl c).sharers.getD k default =
      if k < me.sharers.length ∧ (me.construct.getD c default).contr.length ≠ 1 ∧
          (me.sharers.getD k default).rank ∈ (me.construct.getD c default).ranks then
        { me.sharers.getD k default with
          sharedNodes := (me.sharers.getD k default).sharedNodes ++ [lcl] }
      else me.sharers.getD k default := by
  unfold populateOwned
  dsimp only
  by_cases h1 : (me.construct.getD c default).contr.length = 1
  · rw [if_pos h1, if_neg fun h' => h'.2.1 h1]
  · have hm : ((me.construct.getD c default).contr.map fun e => me.sharerOf e.rank) =
        (me.construct.getD c default).ranks.map me.sharerOf := by
      rw [Cnode.ranks, List.map_map]; rfl
    rw [if_neg h1, foldl_pushShared_sharerOf, foldl_pushShared_getD, hm]
    by_cases hk : k < me.sharers.length
    · rw [if_pos hk, h.count_sharerOf hc.1 hc.2 hk]
      by_cases hr : (me.sharers.getD k default).rank ∈ (me.construct.getD c default).ranks
      · rw [if_pos hr, if_pos ⟨hk, h1, hr⟩]; rfl
      · rw [if_neg hr, if_neg fun h' => hr h'.2.2]; simp
    · rw [if_neg hk, if_neg fun h' => hk h'.1]

/-- The local numbers, among the owned nodes `os` listed with their local numbers, that
`populate_sharers` puts into the record of rank `q`: those of the nodes with other than one
contributor, `q` among them.
Source: `populate_sharers` (part_000 ll. 1312–1334)
Kind: D -/
def ownedSharedWith (me : TnodesMeta) (os : List (Nat × Nat)) (q : Nat) : List Nat :=
  (os.filter fun x => (me.construct.getD x.2 default).contr.length ≠ 1 ∧
    q ∈ (me.construct.getD x.2 default).ranks).map (·.1)

lemma ownedSharedWith_cons (me : TnodesMeta) (x : Nat × Nat) (os : List (Nat × Nat)) (q : Nat) :
    ownedSharedWith me (x :: os) q =
      (if (me.construct.getD x.2 default).contr.length ≠ 1 ∧
          q ∈ (me.construct.getD x.2 default).ranks then [x.1] else []) ++
        ownedSharedWith me os q := by
  unfold ownedSharedWith
  rw [List.filter_cons]
  split_ifs with h1 h2 h2 <;> simp_all

/-- The owned entries of rank `q` are the positions of the owned list holding a node with other
than one contributor, `q` among them. -/
lemma mem_ownedSharedWith_enum (me : TnodesMeta) (os : List Nat) (q n : Nat) :
    n ∈ ownedSharedWith me os.enum q ↔ ∃ h : n < os.length,
      (me.construct.getD os[n] default).contr.length ≠ 1 ∧
        q ∈ (me.construct.getD os[n] default).ranks := by
  unfold ownedSharedWith
  rw [List.mem_map]
  constructor
  · rintro ⟨⟨i, c⟩, hm, rfl⟩
    rw [List.mem_filter, List.mem_enum_iff_getElem?, List.getElem?_eq_some_iff] at hm
    dsimp only at hm
    obtain ⟨⟨h, rfl⟩, hc⟩ := hm
    exact ⟨h, by simpa using hc⟩
  · rintro ⟨h, hc⟩
    exact ⟨(n, os[n]), List.mem_filter.mpr ⟨List.mem_enum_iff_getElem?.mpr
      (List.getElem?_eq_getElem h), by simpa using hc⟩, rfl⟩

lemma length_ownedSharedWith (me : TnodesMeta) (os : List Nat) (q : Nat) :
    (ownedSharedWith me os.enum q).length = (os.filter fun c =>
      (me.construct.getD c default).contr.length ≠ 1 ∧
        q ∈ (me.construct.getD c default).ranks).length := by
  conv_rhs => rw [← List.enum_map_snd os]
  rw [List.filter_map, List.length_map, ownedSharedWith, List.length_map]
  rfl

/-- The owned entries are numbers of positions of the owned list, in increasing order. -/
lemma ownedSharedWith_sublist (me : TnodesMeta) (os : List Nat) (q : Nat) :
    (ownedSharedWith me os.enum q).Sublist (List.range os.length) := by
  rw [← List.enum_map_fst]
  exact (List.filter_sublist _).map _

lemma ownedSharedWith_sorted (me : TnodesMeta) (os : List Nat) (q : Nat) :
    (ownedSharedWith me os.enum q).Sorted (· < ·) :=
  (List.pairwise_lt_range _).sublist (ownedSharedWith_sublist me os q)

/-- **The loop over the owned nodes.** Starting from records `sh`, every record of rank `q` gets
the local numbers `ownedSharedWith os q`, in the order of `os`.
Source: `populate_sharers` (part_000 ll. 1312–1335)
Kind: L -/
lemma foldl_populateOwned_getD {me : TnodesMeta} : ∀ (os : List (Nat × Nat)),
    (∀ x ∈ os, me.KnownRanks x.2) → ∀ sh : List Sharer, SharerTable { me with sharers := sh } →
    ∀ k, (os.foldl (fun m x => populateOwned m x.1 x.2) { me with sharers := sh }).sharers.getD k
        default =
      if k < sh.length then
        { sh.getD k default with
          sharedNodes := (sh.getD k default).sharedNodes ++
            ownedSharedWith me os (sh.getD k default).rank }
      else sh.getD k default
  | [], _, sh, _, k => by split_ifs <;> simp [ownedSharedWith]
  | x :: os, hos, sh, ht, k => by
    obtain ⟨sh', e, hl⟩ := populateOwned_frame { me with sharers := sh } x.1 x.2
    have hx : ∀ k, sh'.getD k default = _ := fun k =>
      (congrArg (fun m : TnodesMeta => m.sharers.getD k default) e).symm.trans
        (ht.populateOwned_getD x.1 (hos x (.head _)) k)
    have ht' : SharerTable { me with sharers := sh' } :=
      ht.congr hl (fun k => by rw [hx k]; split_ifs <;> rfl) rfl rfl rfl fun _ => ⟨rfl, rfl⟩
    rw [List.foldl_cons, e, foldl_populateOwned_getD os (fun y hy => hos y (.tail _ hy)) sh' ht' k,
      hx k, hl, ownedSharedWith_cons]
    by_cases hk : k < sh.length
    · by_cases hc : (me.construct.getD x.2 default).contr.length ≠ 1 ∧
          (sh.getD k default).rank ∈ (me.construct.getD x.2 default).ranks
      · simp only [if_pos hk, if_pos hc, if_pos (And.intro hk hc), List.append_assoc,
          List.singleton_append]
      · simp only [if_pos hk, if_neg hc, if_neg fun h' : _ ∧ _ => hc h'.2, List.nil_append]
    · simp only [if_neg hk, if_neg fun h' : _ ∧ _ => hk h'.1]

/-! ## `populate_sharers`: the counts -/

/-- The offsets and counts `populate_sharers` writes into the record `s` of the peer `tp`: its
shared nodes so far are all its own, and its owned range is the peer's block of shared-in nodes.
Source: `populate_sharers` (part_000 ll. 1345–1360)
Kind: D -/
def peerCounts (numOwned mpirank : Nat) (tp : Peer) (s : Sharer) : Sharer :=
  { s with sharedMineOffset := 0, sharedMineCount := s.sharedNodes.length,
           ownedOffset := numOwned + tp.shacumul,
           ownedCount := if tp.rank < mpirank then tp.bufcount else 0 }

lemma setSharerCounts_eq (me : TnodesMeta) (i : Nat) :
    setSharerCounts me i = { me with
      sharers := me.sharers.modify (peerCounts me.numOwned me.mpirank (me.peers.getD i default))
        (me.peers.getD i default).sharind } := rfl

/-- **The loop of the peer counts.** Over distinct peers, the record of each visited peer gets
its counts once and the other records stay.
Source: `populate_sharers` (part_000 ll. 1345–1360)
Kind: L -/
lemma SharerTable.foldl_setSharerCounts {m : TnodesMeta} (h : SharerTable m) : ∀ (l : List Nat),
    l.Nodup → (∀ i ∈ l, i < m.peers.length) → ∀ sh : List Sharer, sh.length = m.sharers.length →
    ∃ sh', l.foldl setSharerCounts { m with sharers := sh } = { m with sharers := sh' } ∧
      sh'.length = sh.length ∧
      (∀ i ∈ l, sh'.getD (m.peers.getD i default).sharind default =
        peerCounts m.numOwned m.mpirank (m.peers.getD i default)
          (sh.getD (m.peers.getD i default).sharind default)) ∧
      ∀ k, (∀ i ∈ l, (m.peers.getD i default).sharind ≠ k) → sh'.getD k default = sh.getD k default
  | [], _, _, sh, _ => ⟨sh, rfl, rfl, fun i hi => absurd hi (List.not_mem_nil i), fun _ _ => rfl⟩
  | i :: l, hnd, hl, sh, hsh => by
    rw [List.nodup_cons] at hnd
    have hlen₁ : (sh.modify (peerCounts m.numOwned m.mpirank (m.peers.getD i default))
        (m.peers.getD i default).sharind).length = m.sharers.length := by
      rw [List.length_modify, hsh]
    obtain ⟨sh', e, hlen', hin, hout⟩ := h.foldl_setSharerCounts l hnd.2
      (fun j hj => hl j (.tail _ hj)) _ hlen₁
    have hti : (m.peers.getD i default).sharind < sh.length := hsh ▸ (h.peer i (hl i (.head _))).1
    have hne : ∀ j ∈ l, (m.peers.getD j default).sharind ≠ (m.peers.getD i default).sharind :=
      fun j hj he => hnd.1 (h.sharind_inj (hl j (.tail _ hj)) (hl i (.head _)) he ▸ hj)
    refine ⟨sh', by rw [List.foldl_cons, setSharerCounts_eq]; exact e,
      hlen'.trans (List.length_modify _ _ _), fun j hj => ?_, fun k hk => ?_⟩
    · rcases List.mem_cons.mp hj with rfl | hj
      · rw [hout _ hne, getD_modify, if_pos ⟨rfl, hti⟩]
      · rw [hin j hj, getD_modify, if_neg fun h' => hne j hj h'.1.symm]
    · rw [hout k fun j hj => hk j (.tail _ hj), getD_modify, if_neg fun h' => hk i (.head _) h'.1]

/-! ## `populate_sharers`: the shared-in nodes -/

/-- The state `m` is `m0` with entries from `N` on appended to its records; every record is
increasing and below `b`.
Source: none: loop invariant of `populate_sharers` (part_000 ll. 1363–1393)
Kind: D -/
structure PushedAbove (N b : Nat) (m0 m : TnodesMeta) : Prop where
  eq : m = { m0 with sharers := m.sharers }
  length : m.sharers.length = m0.sharers.length
  record : ∀ k, ∃ ext, m.sharers.getD k default = { m0.sharers.getD k default with
    sharedNodes := (m0.sharers.getD k default).sharedNodes ++ ext } ∧ ∀ x ∈ ext, N ≤ x
  sorted : ∀ k, (m.sharers.getD k default).sharedNodes.Sorted (· < ·)
  bound : ∀ k, ∀ x ∈ (m.sharers.getD k default).sharedNodes, x < b

namespace PushedAbove

variable {N b : Nat} {m0 m : TnodesMeta}

/-- **Step lemma.** Pushing a number `v` from `b` and `N` on keeps the invariant, up to `v + 1`. -/
lemma pushShared (h : PushedAbove N b m0 m) {v : Nat} (hbv : b ≤ v) (hNv : N ≤ v) (si : Nat) :
    PushedAbove N (v + 1) m0 (m.pushShared si v) := by
  refine ⟨by rw [h.eq]; rfl, (List.length_modify _ _ _).trans h.length, fun k => ?_, fun k => ?_,
    fun k => ?_⟩ <;> rw [pushShared_getD] <;> split_ifs
  · obtain ⟨ext, he, hN⟩ := h.record k
    refine ⟨ext ++ [v], by rw [he, List.append_assoc], fun x hx => ?_⟩
    rcases List.mem_append.mp hx with hx | hx
    · exact hN x hx
    · rw [List.mem_singleton.mp hx]; exact hNv
  · exact h.record k
  · exact List.pairwise_append.mpr ⟨h.sorted k, List.pairwise_singleton _ _,
      fun a ha b hb => (List.mem_singleton.mp hb) ▸ lt_of_lt_of_le (h.bound k a ha) hbv⟩
  · exact h.sorted k
  · intro x hx
    rcases List.mem_append.mp hx with hx | hx
    · have := h.bound k x hx; omega
    · rw [List.mem_singleton.mp hx]; omega
  · intro x hx
    have := h.bound k x hx; omega

/-- The inner loop of one peer: the numbers `b .. b + n - 1`, in order. -/
lemma foldl_range (F : TnodesMeta → Nat → Nat) : ∀ (n : Nat) {b : Nat} {m : TnodesMeta},
    PushedAbove N b m0 m → N ≤ b →
      PushedAbove N (b + n) m0 ((List.range n).foldl (fun m lcl => m.pushShared (F m lcl) (b + lcl)) m)
  | 0, _, _, h, _ => h
  | n + 1, b, m, h, hb => by
    rw [List.range_succ, List.foldl_append, List.foldl_cons, List.foldl_nil]
    exact (foldl_range F n h hb).pushShared le_rfl (by omega) _

/-- `populatePeer` keeps the invariant and moves the next number past what it pushed. -/
lemma populatePeer (h : PushedAbove N b m0 m) (hb : N ≤ b) (i : Nat) :
    PushedAbove N (populatePeer m i b).2 m0 (populatePeer m i b).1 ∧
      N ≤ (populatePeer m i b).2 := by
  unfold P4estTnodes.populatePeer
  dsimp only
  split_ifs
  · exact ⟨h.foldl_range _ _ hb, by omega⟩
  · exact ⟨h, hb⟩

/-- **Run lemma.** The loop over the peers keeps the invariant. -/
lemma foldl_populatePeer : ∀ (l : List Nat) (acc : TnodesMeta × Nat),
    PushedAbove N acc.2 m0 acc.1 → N ≤ acc.2 →
      PushedAbove N (l.foldl (fun acc i => P4estTnodes.populatePeer acc.1 i acc.2) acc).2 m0
        (l.foldl (fun acc i => P4estTnodes.populatePeer acc.1 i acc.2) acc).1
  | [], _, h, _ => h
  | i :: l, acc, h, hb => by
    obtain ⟨h', hb'⟩ := h.populatePeer hb i
    exact foldl_populatePeer l _ h' hb'

end PushedAbove

/-! ## `populate_sharers` as a whole -/

/-- What `populate_sharers` leaves in record `k` of the process `me`: the record's rank;
increasing entries, first the owned ones of `ownedSharedWith`, then entries from `num_owned` on;
and either the offsets and counts of the process's own record or those of a peer's record.
Source: `populate_sharers` (part_000 ll. 1287–1398)
Kind: D -/
structure FilledRecord (me : TnodesMeta) (k : Nat) (s : Sharer) : Prop where
  rank : s.rank = (me.sharers.getD k default).rank
  sorted : s.sharedNodes.Sorted (· < ·)
  owned : ∃ ext, s.sharedNodes = ownedSharedWith me me.ownsort.enum s.rank ++ ext ∧
    ∀ x ∈ ext, me.numOwned ≤ x
  mineOffset : s.sharedMineOffset = 0
  counts : (k = me.locsharer ∧ s.sharedMineCount = me.numOwnedShared ∧ s.ownedOffset = 0 ∧
      s.ownedCount = me.numOwned) ∨
    ∃ i < me.peers.length, (me.peers.getD i default).sharind = k ∧
      s.sharedMineCount = (ownedSharedWith me me.ownsort.enum s.rank).length ∧
      s.ownedOffset = me.numOwned + (me.peers.getD i default).shacumul ∧
      s.ownedCount = if (me.peers.getD i default).rank < me.mpirank then
        ((me.peers.getD i default).bufcount : Int) else 0

/-- Entries from `num_owned` on, appended in increasing order, keep a filled record filled. -/
lemma FilledRecord.append {me : TnodesMeta} {k : Nat} {s : Sharer} (h : FilledRecord me k s)
    {ext : List Nat} (hext : ∀ x ∈ ext, me.numOwned ≤ x)
    (hs : (s.sharedNodes ++ ext).Sorted (· < ·)) :
    FilledRecord me k { s with sharedNodes := s.sharedNodes ++ ext } := by
  obtain ⟨e0, he0, hN0⟩ := h.owned
  refine ⟨h.rank, hs, ⟨e0 ++ ext, by rw [he0, List.append_assoc], fun x hx => ?_⟩, h.mineOffset,
    h.counts⟩
  rcases List.mem_append.mp hx with hx | hx
  exacts [hN0 x hx, hext x hx]

/-- Below `num_owned` a filled record holds exactly its owned entries. -/
lemma FilledRecord.mem_iff_of_lt {me : TnodesMeta} {k : Nat} {s : Sharer} (h : FilledRecord me k s)
    {n : Nat} (hn : n < me.numOwned) :
    n ∈ s.sharedNodes ↔ n ∈ ownedSharedWith me me.ownsort.enum s.rank := by
  obtain ⟨ext, he, hge⟩ := h.owned
  rw [he, List.mem_append, or_iff_left fun hx => absurd (hge n hx) (by omega)]

/-- The entries of a filled record below `num_owned` are its owned entries. -/
lemma FilledRecord.filter_lt {me : TnodesMeta} {k : Nat} {s : Sharer} (h : FilledRecord me k s)
    (hN : me.ownsort.length = me.numOwned) :
    s.sharedNodes.filter (· < me.numOwned) = ownedSharedWith me me.ownsort.enum s.rank := by
  obtain ⟨ext, he, hge⟩ := h.owned
  rw [he, List.filter_append, List.filter_eq_self.mpr fun x hx => ?_,
    List.filter_eq_nil_iff.mpr fun x hx => ?_, List.append_nil]
  · simpa using hge x hx
  · simpa [← hN] using (ownedSharedWith_sublist _ _ _).subset hx

/-- **What `populate_sharers` computes.** On a process with a ghost layer and peers, whose
sharer table comes from `sort_peers` with empty records, whose owned nodes have contributor ranks
the table knows and whose `sortp` lists every peer once, every record ends filled.
Source: `populate_sharers` (part_000 ll. 1287–1398)
Kind: L -/
theorem SharerTable.populateSharers_filled {me : TnodesMeta} (h : SharerTable me)
    (hg : me.ghost ≠ none) (hp : me.peers ≠ []) (hfresh : ∀ s ∈ me.sharers, s.sharedNodes = [])
    (hknown : ∀ c ∈ me.ownsort, me.KnownRanks c) (hN : me.ownsort.length = me.numOwned)
    (hsortp : me.sortp.Nodup ∧ ∀ j, j ∈ me.sortp ↔ j < me.peers.length) :
    ∃ sh, populateSharers me = { me with sharers := sh } ∧ sh.length = me.sharers.length ∧
      ∀ k < me.sharers.length, FilledRecord me k (sh.getD k default) := by
  -- the owned nodes
  obtain ⟨sh1, e1, hl1⟩ := foldl_sharersOnly (fun m x => populateOwned m x.1 x.2)
    (fun m x => populateOwned_frame m x.1 x.2) me.ownsort.enum me
  have hA : ∀ k < me.sharers.length, sh1.getD k default = { me.sharers.getD k default with
      sharedNodes := ownedSharedWith me me.ownsort.enum (me.sharers.getD k default).rank } :=
    fun k hk => by
      have := foldl_populateOwned_getD me.ownsort.enum (fun x hx => hknown _
        (List.mem_iff_getElem?.mpr ⟨_, List.mem_enum_iff_getElem?.mp hx⟩)) me.sharers h k
      rw [if_pos hk, hfresh _ (getD_mem hk), List.nil_append] at this
      exact (congrArg (fun m : TnodesMeta => m.sharers.getD k default) e1).symm.trans this
  -- the process's own record, then the peers' counts
  have hl2 : (sh1.modify (fun s => { s with
      sharedMineOffset := 0, ownedOffset := 0, sharedMineCount := me.numOwnedShared,
      ownedCount := me.numOwned }) me.locsharer).length = me.sharers.length := by
    rw [List.length_modify, hl1]
  obtain ⟨sh3, e3, hl3, hin3, hout3⟩ := h.foldl_setSharerCounts me.sortp hsortp.1
    (fun i hi => (hsortp.2 i).mp hi) _ hl2
  have hC : ∀ k < me.sharers.length, (sh3.getD k default).sharedNodes =
      ownedSharedWith me me.ownsort.enum (sh3.getD k default).rank ∧
      FilledRecord me k (sh3.getD k default) := fun k hk => by
    have hO := ownedSharedWith_sorted me me.ownsort (me.sharers.getD k default).rank
    rcases h.eq_loc_or_sharind hk with rfl | ⟨i, hi, rfl⟩
    · rw [hout3 _ fun i hi => h.sharind_ne_locsharer ((hsortp.2 i).mp hi), getD_modify,
        if_pos ⟨rfl, hl1 ▸ hk⟩, hA _ hk]
      exact ⟨rfl, rfl, hO, ⟨[], (List.append_nil _).symm, fun _ h => absurd h
        (List.not_mem_nil _)⟩, rfl, .inl ⟨rfl, rfl, rfl, rfl⟩⟩
    · rw [hin3 i ((hsortp.2 i).mpr hi), getD_modify,
        if_neg fun h' => h.sharind_ne_locsharer hi h'.1.symm, hA _ hk]
      exact ⟨rfl, rfl, hO, ⟨[], (List.append_nil _).symm, fun _ h => absurd h
        (List.not_mem_nil _)⟩, rfl, .inr ⟨i, hi, rfl, rfl, rfl, rfl⟩⟩
  -- the shared-in nodes
  have hsorted : ∀ k, (sh3.getD k default).sharedNodes.Sorted (· < ·) := fun k => by
    by_cases hk : k < me.sharers.length
    · exact (hC k hk).2.sorted
    · rw [List.getD_eq_default _ _ (by omega)]; exact List.sorted_nil
  have hbound : ∀ k, ∀ x ∈ (sh3.getD k default).sharedNodes, x < me.numOwned := fun k x hx => by
    by_cases hk : k < me.sharers.length
    · rw [(hC k hk).1] at hx
      exact hN ▸ List.mem_range.mp ((ownedSharedWith_sublist _ _ _).subset hx)
    · rw [List.getD_eq_default _ _ (by omega)] at hx
      exact absurd hx (List.not_mem_nil x)
  have h0 : PushedAbove me.numOwned me.numOwned { me with sharers := sh3 } { me with sharers := sh3 } :=
    ⟨rfl, rfl, fun k => ⟨[], by simp⟩, hsorted, hbound⟩
  have hD := PushedAbove.foldl_populatePeer me.sortp ({ me with sharers := sh3 }, me.numOwned) h0
    le_rfl
  unfold populateSharers
  rw [if_neg (not_or.mpr ⟨hg, hp⟩)]
  dsimp only
  rw [e1, e3]
  refine ⟨_, hD.eq, (hD.length.trans hl3).trans hl2, fun k hk => ?_⟩
  obtain ⟨ext, hrec, hext⟩ := hD.record k
  have hs := hD.sorted k
  rw [hrec] at hs ⊢
  exact (hC k hk).2.append hext hs

/-! ## The count of shared owned nodes -/

/-- One candidate of `owned_query_reply` adds one to `num_owned_shared` if it is owned and has
more than one contributor.
Source: `owned_query_reply` (part_000 ll. 762–779)
Kind: L -/
lemma ownedQueryReplyNode_numOwnedShared (m : TnodesMeta) (k : Nat) :
    (ownedQueryReplyNode m k).numOwnedShared = m.numOwnedShared +
      if m.ownerRank k = m.mpirank ∧ 1 < (m.construct.getD k default).contr.length then 1 else 0 := by
  unfold ownedQueryReplyNode TnodesMeta.ownerRank
  dsimp only
  by_cases ho : (m.construct.getD k default).ownerContr.rank = m.mpirank
  · obtain ⟨ps, e⟩ := ownedAddReplies_eq
      { m with ownsort := m.ownsort ++ [k], numOwned := m.numOwned + 1 }
      (m.construct.getD k default).contr
    rw [if_pos ho, e]
    by_cases hc : 1 < (m.construct.getD k default).contr.length
    · rw [if_pos hc, if_pos ⟨ho, hc⟩]; rfl
    · rw [if_neg hc, if_neg (not_and_of_not_right _ hc)]; rfl
  · rw [if_neg ho, if_neg (not_and_of_not_left _ ho)]
    split_ifs
    · rfl
    · obtain ⟨ps, e⟩ := remoteAddPassive_eq m (m.construct.getD k default).contr
        (m.construct.getD k default).ownerContr.rank
      rw [e, peerAccess_eq]; rfl

/-- **`num_owned_shared` counts the owned candidates with more than one contributor.**
Source: `owned_query_reply` (part_000 ll. 751–823)
Kind: L -/
lemma Traversed.numOwnedShared_range {me : TnodesMeta} (h : Traversed me) :
    ∀ k ≤ me.construct.length, ((List.range k).foldl ownedQueryReplyNode me).numOwnedShared =
      me.numOwnedShared +
        ((ownedBelow me k).filter fun c => 1 < (me.construct.getD c default).contr.length).length
  | 0, _ => by simp [ownedBelow]
  | k + 1, hk => by
    have hK := (oqrAt_range h.registered (oqrAt_zero h.ownsort h.numOwned h.numShared h.peers) k
      (by omega)).keeps
    rw [List.range_succ, List.foldl_append, List.foldl_cons, List.foldl_nil,
      ownedQueryReplyNode_numOwnedShared, h.numOwnedShared_range k (by omega), hK.ownerRank,
      hK.mpirank, hK.contr, ownedBelow_succ, List.filter_append, List.length_append, Nat.add_assoc]
    by_cases ho : me.ownerRank k = me.mpirank
    · rw [if_pos ho]
      by_cases hc : 1 < (me.construct.getD k default).contr.length
      · rw [if_pos ⟨ho, hc⟩, List.filter_cons_of_pos (by simpa using hc)]; rfl
      · rw [if_neg (not_and_of_not_right _ hc), List.filter_cons_of_neg (by simpa using hc)]; rfl
    · rw [if_neg ho, if_neg (not_and_of_not_left _ ho)]; rfl

namespace ConsistentViews

variable {P : Nat} {ms : Nat → TnodesMeta} {gnode : Nat → Nat → Nat}
  (hv : ConsistentViews P ms gnode) (ht : ∀ r < P, Traversed (ms r))
include hv ht

omit hv in
/-- After `sort_allgather` the owned list is sorted by owner slot, and `num_owned_shared` counts
the owned candidates with more than one contributor.
Source: `owned_query_reply` (part_000 ll. 751–823), `sort_allgather` (ll. 832–841)
Kind: L -/
lemma phase2_owned {r : Nat} (hr : r < P) :
    (System.phase2 ms r).ownsort = ownedOrder (ms r) ∧
    (System.phase2 ms r).numOwnedShared = (ms r).numOwnedShared +
      ((ownedBelow (ms r) (ms r).construct.length).filter
        fun c => 1 < ((ms r).construct.getD c default).contr.length).length := by
  obtain ⟨rq, ep, e1⟩ := (ht r hr).tnodesPhase1_eq
  have hk1 := (ht r hr).tnodesPhase1_keeps
  obtain ⟨_, _, _, _, e3⟩ := sortPeers_frame (sortAllgather (System.phase1 ms r) (System.counts ms))
  have hown : (tnodesPhase1 (ms r)).ownsort = ownedBelow (ms r) (ms r).construct.length := by
    rw [e1]; exact (ht r hr).oqrAt.ownsort
  refine ⟨?_, ?_⟩
  · show (sortPeers (sortAllgather (System.phase1 ms r) (System.counts ms))).ownsort = _
    rw [e3]
    show (sortAllgather (tnodesPhase1 (ms r)) (System.counts ms)).ownsort = _
    rw [sortAllgather_eq]
    show (tnodesPhase1 (ms r)).ownsort.insertionSort (cnodeLe (tnodesPhase1 (ms r)).construct) = _
    rw [insertionSort_congr_rel hk1.cnodeLe, hown]
    rfl
  · show (sortPeers (sortAllgather (System.phase1 ms r) (System.counts ms))).numOwnedShared = _
    rw [e3]
    show (sortAllgather (tnodesPhase1 (ms r)) (System.counts ms)).numOwnedShared = _
    rw [sortAllgather_eq]
    show (tnodesPhase1 (ms r)).numOwnedShared = _
    rw [e1]
    exact (ht r hr).numOwnedShared_range _ le_rfl

/-- **The sharer table after the exchange.** A process with peers and no sharer record before
`sort_peers` leaves the exchange with the table of `sort_peers` and empty records.
Source: `sort_peers` (part_000 ll. 922–977), `wait_query_reply` (ll. 1036–1177)
Kind: L -/
lemma exchange_sharerTable {r : Nat} (hr : r < P) (hs : (ms r).sharers = [])
    (hp : (System.exchange ms r).peers ≠ []) :
    SharerTable (System.exchange ms r) ∧ ∀ s ∈ (System.exchange ms r).sharers, s.sharedNodes = [] := by
  have h2 := (ht r hr).phase2
  have hR := exchange_received ms r (hv.receiveReady ht hr)
  obtain ⟨cs, nl, ps, e⟩ := hv.exchange_eq ht hr
  obtain ⟨rq, ep, e1⟩ := (ht r hr).tnodesPhase1_eq
  obtain ⟨_, _, _, _, _, _, _, e0⟩ := ownedQueryReply_eq (ms r)
  have hk := (ht r hr).tnodesPhase1_keeps.trans
    (keeps_sortAllgather (System.phase1 ms r) (System.counts ms))
  have hranks := sortPeers_ranks (sortAllgather (System.phase1 ms r) (System.counts ms))
  have hpl : (System.phase2 ms r).peers.length =
      (sortAllgather (System.phase1 ms r) (System.counts ms)).peers.length := by
    simpa using congrArg List.length hranks
  have hs2 : (sortAllgather (System.phase1 ms r) (System.counts ms)).sharers = [] := by
    rw [sortAllgather_eq]
    show (tnodesPhase1 (ms r)).sharers = []
    rw [e1]
    show (ownedQueryReply (ms r)).sharers = []
    rw [e0]
    exact hs
  obtain ⟨htab, hfresh⟩ := sortPeers_sharerTable _ (by rw [hk.ghost]; exact (ht r hr).ghost)
    (fun h => hp (List.length_eq_zero.mp (hR.length.trans (hpl.trans (by rw [h]; rfl)))))
    (hranks ▸ h2.ranks.1) (fun hm => by
      obtain ⟨c, -, -, -, hne⟩ := (h2.ranks.2 _).mp (hranks ▸ hm)
      exact hne hk.mpirank) hs2
  refine ⟨htab.congr (by rw [e]; rfl) (fun k => by rw [e]; rfl) (by rw [e]; rfl) (by rw [e]; rfl)
    hR.length fun j => ⟨(hR.core j).1, exchange_sharind ms r j⟩, by rw [e]; exact hfresh⟩

/-- What the exchange keeps of `sort_allgather`: the candidates' shapes and the rank, the owned
list in owner slot order, and its length as `num_owned` and `owned_count`. -/
lemma exchange_owned {r : Nat} (hr : r < P) :
    Keeps (ms r) (System.exchange ms r) ∧ (System.exchange ms r).mpirank = r ∧
      (System.exchange ms r).ownsort = ownedOrder (ms r) ∧
      (System.exchange ms r).numOwned = (ownedOrder (ms r)).length ∧
      (System.exchange ms r).ownedCount = (ownedOrder (ms r)).length := by
  have h2 := (ht r hr).phase2
  have hK := h2.keeps.trans (exchange_received ms r (hv.receiveReady ht hr)).keeps
  obtain ⟨cs, nl, ps, e⟩ := hv.exchange_eq ht hr
  refine ⟨hK, hK.mpirank.trans (hv.rank r hr).1, ?_, ?_, hv.exchange_ownedCount ht hr⟩ <;> rw [e]
  · exact (phase2_owned ht hr).1
  · rw [length_ownedOrder]; exact h2.numOwned

/-- Every other contributor rank of a candidate with a local contributor is a peer after the
exchange. -/
lemma mem_exchange_peers {r c q : Nat} (hr : r < P) (hc : c < (ms r).construct.length)
    (hl : (ms r).isLocal c) (hq : q ∈ ((ms r).construct.getD c default).ranks) (hqr : q ≠ r) :
    q ∈ (System.exchange ms r).peers.map (·.rank) := by
  have hR := exchange_received ms r (hv.receiveReady ht hr)
  rw [map_eq_of_getD _ hR.length fun j _ => (hR.core j).1]
  exact ((ht r hr).phase2.ranks.2 q).mpr ⟨c, hc, hl, hq, fun h => hqr (h.trans (hv.rank r hr).1)⟩

/-- A process that shares a node with another process has peers after the exchange. -/
lemma exchange_peers_ne_nil {r c q : Nat} (hr : r < P) (hc : c < (ms r).construct.length)
    (hl : (ms r).isLocal c) (hq : q ∈ ((ms r).construct.getD c default).ranks) (hqr : q ≠ r) :
    (System.exchange ms r).peers ≠ [] := fun h => by
  have hm := hv.mem_exchange_peers ht hr hc hl hq hqr
  rw [h] at hm
  exact List.not_mem_nil _ hm

/-- **The owned entries by candidate.** Rank `q` is given the local numbers of the owned
candidates with more than one contributor, `q` among them.
Source: `populate_sharers` (part_000 ll. 1312–1334), `sort_allgather` (ll. 832–841)
Kind: L -/
lemma mem_ownedSharedWith_iff {r q n : Nat} (hr : r < P) :
    n ∈ ownedSharedWith (System.exchange ms r) (ownedOrder (ms r)).enum q ↔
      ∃ c < (ms r).construct.length, (ms r).ownerRank c = r ∧
        1 < ((ms r).construct.getD c default).contr.length ∧
        q ∈ ((ms r).construct.getD c default).ranks ∧
        ((System.exchange ms r).construct.getD c default).runid = n := by
  obtain ⟨hK, -⟩ := hv.exchange_owned ht hr
  have hnd : (ownedOrder (ms r)).Nodup :=
    (List.perm_insertionSort _ _).nodup_iff.mpr ((List.nodup_range _).filter _)
  have hpos : ∀ c < (ms r).construct.length, 0 < ((ms r).construct.getD c default).contr.length :=
    fun c hc => by obtain ⟨-, o, -, ho, -⟩ := (ht r hr).registered c hc; omega
  simp only [mem_ownedSharedWith_enum, hK.contr, hK.ranks]
  constructor
  · rintro ⟨hn, hc1, hq⟩
    obtain ⟨hc, ho⟩ := (hv.mem_ownedOrder hr).mp (List.getElem_mem hn)
    exact ⟨_, hc, ho, by have := hpos _ hc; omega, hq,
      by rw [hv.exchange_runid_owned ht hr hc ho, List.indexOf_getElem hnd]⟩
  · rintro ⟨c, hc, ho, hc1, hq, hrun⟩
    rw [hv.exchange_runid_owned ht hr hc ho, Int.ofNat_inj] at hrun
    subst hrun
    have hlt := List.indexOf_lt_length.mpr ((hv.mem_ownedOrder hr).mpr ⟨hc, ho⟩)
    exact ⟨hlt, by rw [List.getElem_indexOf]; omega, by rw [List.getElem_indexOf]; exact hq⟩

/-- **The process's own owned entries are `num_owned_shared` many**, as `populate_sharers`
asserts: every owned candidate has the process among its contributors.
Source: `populate_sharers` (part_000 ll. 1336–1339), `owned_query_reply` (ll. 762–779)
Kind: L -/
lemma length_ownedSharedWith_self {r : Nat} (hr : r < P) :
    (ownedSharedWith (System.exchange ms r) (ownedOrder (ms r)).enum r).length =
      ((ownedBelow (ms r) (ms r).construct.length).filter
        fun c => 1 < ((ms r).construct.getD c default).contr.length).length := by
  obtain ⟨hK, -⟩ := hv.exchange_owned ht hr
  rw [length_ownedSharedWith, ownedOrder, ((List.perm_insertionSort _ _).filter _).length_eq]
  refine congrArg List.length (List.filter_congr fun c hc => ?_)
  rw [ownedBelow, List.mem_filter, List.mem_range, decide_eq_true_eq] at hc
  have hreg := (ht r hr).registered c hc.1
  have hl : r ∈ ((ms r).construct.getD c default).ranks := by
    have := TnodesMeta.isLocal_of_owned hreg hc.2
    rwa [TnodesMeta.isLocal, (hv.rank r hr).1] at this
  obtain ⟨-, o, -, ho, -⟩ := hreg
  rw [hK.contr, hK.ranks]
  exact decide_eq_decide.mpr ⟨fun h => by have := h.1; omega, fun h => ⟨by omega, hl⟩⟩

/-- The `shacumul` of a peer record after the exchange is its block's start. -/
lemma exchange_peer_shacumul {r i : Nat} (hr : r < P)
    (hi : i < (System.exchange ms r).peers.length) :
    ((System.exchange ms r).peers.getD i default).shacumul =
      shacumulOf (System.exchange ms r).peers r ((System.exchange ms r).peers.getD i default).rank := by
  have hR := exchange_received ms r (hv.receiveReady ht hr)
  obtain ⟨hrk, -, hsh, -⟩ := hR.core i
  rw [hsh, (ht r hr).phase2.shacumul (hR.length ▸ hi), (hv.rank r hr).1, hrk,
    hv.exchange_shacumulOf ht hr]

/-- **The block of a lower peer holds its nodes.** A candidate owned by a lower peer is numbered
from `owned_count + shacumul` of the peer's record on, below its end `bufcount` later.
Source: `sort_peers` (part_000 ll. 940–950), `wait_query_reply` (ll. 1127–1165)
Kind: L -/
lemma peerBlock_mem {r i c : Nat} (hr : r < P) (hi : i < (System.exchange ms r).peers.length)
    (hq : ((System.exchange ms r).peers.getD i default).rank < r)
    (hc : c < (ms r).construct.length) (hl : (ms r).isLocal c)
    (ho : (ms r).ownerRank c = ((System.exchange ms r).peers.getD i default).rank) :
    (((System.exchange ms r).ownedCount + ((System.exchange ms r).peers.getD i default).shacumul :
        Nat) : Int) ≤ ((System.exchange ms r).construct.getD c default).runid ∧
      ((System.exchange ms r).construct.getD c default).runid <
        (((System.exchange ms r).ownedCount + ((System.exchange ms r).peers.getD i default).shacumul +
          ((System.exchange ms r).peers.getD i default).bufcount : Nat) : Int) := by
  have hor : (ms r).ownerRank c ≠ r := ho.trans_ne hq.ne
  obtain ⟨-, j, hj, hjr, -, hbc, hrun, -⟩ := hv.sharedIn_block ht hr hc hl hor
  obtain rfl : j = i := getD_inj_of_nodup _ (hv.exchange_ranks_nodup ht hr) hj hi (hjr.trans ho)
  have hpos := length_filter_key_lt_length (System.ownerNumber ms r)
    ((ht r hr).sharedIn hc hl fun h => hor (h.trans (hv.rank r hr).1)).2.2
  rw [hrun, hbc]
  omega

/-- **Every position of a lower peer's block holds one of its nodes.** The blocks are disjoint, so
the shared-in candidate numbered there is owned by the peer.
Source: `sort_peers` (part_000 ll. 940–950), `wait_query_reply` (ll. 1127–1165)
Kind: L -/
lemma peerBlock_surj {r i k : Nat} (hr : r < P) (hi : i < (System.exchange ms r).peers.length)
    (hq : ((System.exchange ms r).peers.getD i default).rank < r)
    (hk : k < ((System.exchange ms r).peers.getD i default).bufcount) :
    ∃ c < (ms r).construct.length, (ms r).isLocal c ∧
      (ms r).ownerRank c = ((System.exchange ms r).peers.getD i default).rank ∧
      ((System.exchange ms r).construct.getD c default).runid =
        (((System.exchange ms r).ownedCount + ((System.exchange ms r).peers.getD i default).shacumul +
          k : Nat) : Int) := by
  have hnd := hv.exchange_ranks_nodup ht hr
  have hmem := getD_mem hi
  have hsh := hv.exchange_peer_shacumul ht hr hi
  have hall : shacumulOf (System.exchange ms r).peers r r = (System.exchange ms r).numShared := by
    have := (ht r hr).phase2.shacumulOf_self (ht r hr)
    rw [(hv.rank r hr).1] at this
    rw [hv.exchange_shacumulOf ht hr, hv.exchange_numShared ht hr, this]
  have hend := shacumulOf_add_le hmem hnd hq hq
  obtain ⟨c, hc, hl, ho, hrun⟩ := hv.sharedIn_surj ht hr (show ((System.exchange ms r).peers.getD
    i default).shacumul + k < (System.exchange ms r).numShared by omega)
  refine ⟨c, hc, hl, ?_, by rw [hrun, Nat.add_assoc]⟩
  -- the owner's block meets the peer's block, so the two are one
  obtain ⟨hlt, j, hj, hjr, -⟩ := hv.sharedIn_block ht hr hc hl ho
  have hb := hv.peerBlock_mem ht hr hj (hjr.trans_lt hlt) hc hl hjr.symm
  have hsj := hv.exchange_peer_shacumul ht hr hj
  rw [hrun] at hb
  rcases Nat.lt_trichotomy ((ms r).ownerRank c) ((System.exchange ms r).peers.getD i default).rank
    with h | h | h
  · have := shacumulOf_add_le (getD_mem hj) hnd (hjr.trans_lt h) (hjr.trans_lt hlt)
    omega
  · exact h
  · have := shacumulOf_add_le hmem hnd (h.trans_eq hjr.symm) hq
    omega

/-- **`populate_sharers` at the end of `p4est_tnodes_new`.** On a process that starts without
sharer records and has peers after the exchange, every sharer record ends filled.
Source: `populate_sharers` (part_000 ll. 1287–1398), `sort_peers` (ll. 922–977)
Kind: L -/
lemma final_filled {r : Nat} (hr : r < P) (hs : (ms r).sharers = [])
    (hp : (System.exchange ms r).peers ≠ []) :
    ∃ en sh, System.final ms r = { System.exchange ms r with elementNodes := en, sharers := sh } ∧
      sh.length = (System.exchange ms r).sharers.length ∧
      ∀ k < (System.exchange ms r).sharers.length,
        FilledRecord (System.exchange ms r) k (sh.getD k default) := by
  have hmr : (ms r).mpirank = r := (hv.rank r hr).1
  have h2 := (ht r hr).phase2
  have hR := exchange_received ms r (hv.receiveReady ht hr)
  obtain ⟨cs, nl, ps, e⟩ := hv.exchange_eq ht hr
  obtain ⟨hK, -, hown, hN, -⟩ := hv.exchange_owned ht hr
  obtain ⟨htab, hfresh⟩ := hv.exchange_sharerTable ht hr hs hp
  have hknown : ∀ c ∈ (System.exchange ms r).ownsort, (System.exchange ms r).KnownRanks c := by
    intro c hc
    rw [hown, hv.mem_ownedOrder hr] at hc
    have hreg := (ht r hr).registered c hc.1
    refine ⟨(hK.ranks c).symm ▸ hreg.1, fun q hq => ?_⟩
    rw [hK.ranks] at hq
    rw [hK.mpirank, hmr]
    by_cases hqr : q = r
    · exact .inl hqr
    · exact .inr (hv.mem_exchange_peers ht hr hc.1
        (TnodesMeta.isLocal_of_owned hreg (hc.2.trans hmr.symm)) hq hqr)
  have hsortp : (System.exchange ms r).sortp.Nodup ∧
      ∀ j, j ∈ (System.exchange ms r).sortp ↔ j < (System.exchange ms r).peers.length := by
    rw [hR.length, e]; exact h2.sortp
  have hg : (System.exchange ms r).ghost ≠ none := by rw [hK.ghost]; exact (ht r hr).ghost
  have hNo : (System.exchange ms r).ownsort.length = (System.exchange ms r).numOwned := by
    rw [hown, hN]
  show ∃ en sh, populateSharers (assignElementNodes (System.exchange ms r)) = _ ∧ _
  -- from here on only these facts about the exchanged state are used
  generalize System.exchange ms r = E at *
  obtain ⟨en, hen⟩ := assignElementNodes_frame E
  obtain ⟨sh, e', hl, hrec⟩ := SharerTable.populateSharers_filled
    (htab.congr rfl (fun _ => rfl) rfl rfl rfl fun _ => ⟨rfl, rfl⟩ :
      SharerTable { E with elementNodes := en }) hg hp hfresh hknown hNo hsortp
  refine ⟨en, sh, by rw [hen, e'], hl, fun k hk => ?_⟩
  have h := hrec k hk
  exact ⟨h.rank, h.sorted, h.owned, h.mineOffset, h.counts⟩

/-- **The owned range of a filled record**: the process's own record covers its owned nodes, a
lower peer's record that peer's block, and a higher peer's record nothing.
Source: `populate_sharers` (part_000 ll. 1341–1362), `sort_peers` (ll. 940–950)
Kind: L -/
lemma filled_ownedRange {r k : Nat} (hr : r < P) (htab : SharerTable (System.exchange ms r))
    {s : Sharer} (hF : FilledRecord (System.exchange ms r) k s) :
    (∀ c < (ms r).construct.length, (ms r).isLocal c → (ms r).ownerRank c = s.rank →
      s.ownedOffset ≤ ((System.exchange ms r).construct.getD c default).runid ∧
        ((System.exchange ms r).construct.getD c default).runid < s.ownedOffset + s.ownedCount) ∧
    ∀ n < s.ownedCount.toNat, ∃ c < (ms r).construct.length, (ms r).isLocal c ∧
      (ms r).ownerRank c = s.rank ∧
      ((System.exchange ms r).construct.getD c default).runid = s.ownedOffset + n := by
  obtain ⟨-, hEr, -, hN, hoc⟩ := hv.exchange_owned ht hr
  rcases hF.counts with ⟨rfl, -, ho0, hc0⟩ | ⟨i, hi, rfl, -, ho0, hc0⟩
  · -- the process's own record: the owned nodes
    have hsr : s.rank = r := hF.rank.trans (htab.loc.2.trans hEr)
    obtain ⟨hin, hsurj⟩ := hv.owned_range ht hr
    rw [ho0, hc0, hsr, hN, ← hoc]
    refine ⟨fun c hc _ ho => ?_, fun n hn => ?_⟩
    · obtain ⟨n, hn, hrun⟩ := hin c hc ho
      omega
    · obtain ⟨c, hc, ho, hrun⟩ := hsurj n (by omega)
      exact ⟨c, hc, TnodesMeta.isLocal_of_owned ((ht r hr).registered c hc)
        (ho.trans (hv.rank r hr).1.symm), ho, by omega⟩
  · -- the record of peer `i`
    have hsr : s.rank = ((System.exchange ms r).peers.getD i default).rank :=
      hF.rank.trans (htab.peer i hi).2
    rw [hsr, ho0, hc0, hEr, hN, ← hoc]
    by_cases hq : ((System.exchange ms r).peers.getD i default).rank < r
    · rw [if_pos hq]
      refine ⟨fun c hc hl ho => ?_, fun n hn => ?_⟩
      · have := hv.peerBlock_mem ht hr hi hq hc hl ho
        omega
      · obtain ⟨c, hc, hl, ho, hrun⟩ := hv.peerBlock_surj ht hr hi hq (show n < _ by omega)
        exact ⟨c, hc, hl, ho, by omega⟩
    · -- a higher peer owns no node with a local contributor
      rw [if_neg hq]
      have hne : ((System.exchange ms r).peers.getD i default).rank ≠ r := fun h =>
        htab.self (by rw [hEr]; exact List.mem_map.mpr ⟨_, getD_mem hi, h⟩)
      refine ⟨fun c hc hl ho => absurd (((ht r hr).registered c hc).owner_le hl) ?_,
        fun n hn => absurd hn (by simp)⟩
      show ¬ (ms r).ownerRank c ≤ (ms r).mpirank
      rw [ho, (hv.rank r hr).1]
      omega

end ConsistentViews

/-- **The sharer records of a process after `populate_sharers`**, as far as its owned nodes and
the owner ranges go: one record for the process and one for each peer, in increasing rank order;
the entries of a record are increasing, and below `num_owned` they are the local numbers of the
owned nodes with more than one contributor, the record's rank among them, counted by
`shared_mine_count` from offset 0; and `owned_offset`, `owned_count` delimit the local numbers of
the nodes the record's rank owns.
Source: `populate_sharers` (part_000 ll. 1287–1398), `sort_peers` (ll. 922–977)
Kind: D -/
structure OwnedSharers (ms : Nat → TnodesMeta) (r : Nat) (f : TnodesMeta) : Prop where
  /-- The records are in increasing rank order. -/
  sorted : (f.sharers.map (·.rank)).Sorted (· < ·)
  /-- The records are those of the process and of its peers, each once. -/
  ranks : (f.sharers.map (·.rank)).Perm (r :: f.peers.map (·.rank))
  /-- The process's own record is at `locsharer`. -/
  loc : f.locsharer < f.sharers.length ∧ (f.sharers.getD f.locsharer default).rank = r
  /-- The entries of each record are increasing. -/
  nodes_sorted : ∀ s ∈ f.sharers, s.sharedNodes.Sorted (· < ·)
  /-- Below `num_owned` a record lists the owned nodes with more than one contributor, its rank
  among them. -/
  owned : ∀ s ∈ f.sharers, ∀ n < f.numOwned, n ∈ s.sharedNodes ↔
    ∃ c < (ms r).construct.length, (ms r).ownerRank c = r ∧
      1 < ((ms r).construct.getD c default).contr.length ∧
      s.rank ∈ ((ms r).construct.getD c default).ranks ∧ (f.construct.getD c default).runid = n
  /-- The owned entries come first, counted by `shared_mine_count`. -/
  mine : ∀ s ∈ f.sharers, s.sharedMineOffset = 0 ∧
    s.sharedMineCount = (s.sharedNodes.filter (· < f.numOwned)).length
  /-- Every node the record's rank owns is numbered inside the record's owned range. -/
  ownedRange : ∀ s ∈ f.sharers, ∀ c < (ms r).construct.length, (ms r).isLocal c →
    (ms r).ownerRank c = s.rank → s.ownedOffset ≤ (f.construct.getD c default).runid ∧
      (f.construct.getD c default).runid < s.ownedOffset + s.ownedCount
  /-- Every number of the owned range is a node the record's rank owns. -/
  ownedRange_surj : ∀ s ∈ f.sharers, ∀ n < s.ownedCount.toNat, ∃ c < (ms r).construct.length,
    (ms r).isLocal c ∧ (ms r).ownerRank c = s.rank ∧
      (f.construct.getD c default).runid = s.ownedOffset + n

/-- **The sharer records.** For processes whose traversal results are consistent views of one
mesh, a process that starts without sharer records or owned shared nodes and shares a node with
another process ends `p4est_tnodes_new` with the sharer records `OwnedSharers` describes. -/
theorem populateSharers_ownedSharers {P : Nat} {ms : Nat → TnodesMeta} {gnode : Nat → Nat → Nat}
    (hv : ConsistentViews P ms gnode) (ht : ∀ r < P, Traversed (ms r)) {r : Nat} (hr : r < P)
    (hs : (ms r).sharers = []) (hno : (ms r).numOwnedShared = 0)
    (hsh : ∃ c < (ms r).construct.length, (ms r).isLocal c ∧
      ∃ q ∈ ((ms r).construct.getD c default).ranks, q ≠ r) :
    OwnedSharers ms r (System.final ms r) := by
  obtain ⟨c0, hc0, hl0, q0, hq0, hqr0⟩ := hsh
  have hp := hv.exchange_peers_ne_nil ht hr hc0 hl0 hq0 hqr0
  obtain ⟨htab, -⟩ := hv.exchange_sharerTable ht hr hs hp
  obtain ⟨-, hEr, hown, hN, -⟩ := hv.exchange_owned ht hr
  obtain ⟨en, sh, e, hl, hrec⟩ := hv.final_filled ht hr hs hp
  have hmem := fun q n => @ConsistentViews.mem_ownedSharedWith_iff P ms gnode hv ht r q n hr
  have hrange := fun k s (hF : FilledRecord (System.exchange ms r) k s) =>
    hv.filled_ownedRange ht hr htab hF
  have hnos : (System.exchange ms r).numOwnedShared =
      (ownedSharedWith (System.exchange ms r) (ownedOrder (ms r)).enum r).length := by
    obtain ⟨cs, nl, ps, e⟩ := hv.exchange_eq ht hr
    rw [hv.length_ownedSharedWith_self ht hr, e]
    exact (ConsistentViews.phase2_owned ht hr).2.trans (by rw [hno, Nat.zero_add])
  rw [e]
  rw [← hown] at hmem hnos
  generalize System.exchange ms r = E at *
  have hmap : sh.map (·.rank) = E.sharers.map (·.rank) :=
    map_eq_of_getD _ hl fun k hk => (hrec k hk).rank
  have hfill : ∀ s ∈ sh, ∃ k, FilledRecord E k s := fun s hs => by
    obtain ⟨k, hk, rfl⟩ := List.mem_iff_getElem.mp hs
    exact ⟨k, List.getD_eq_getElem _ _ hk ▸ hrec k (hl ▸ hk)⟩
  refine ⟨hmap ▸ htab.sorted, ?_, ⟨hl ▸ htab.loc.1, (hrec _ htab.loc.1).rank.trans
    (htab.loc.2.trans hEr)⟩, fun s hs => ?_, fun s hs n hn => ?_, fun s hs => ?_,
    fun s hs => ?_, fun s hs => ?_⟩
  · rw [hmap, List.perm_ext_iff_of_nodup htab.sorted.nodup
      (List.nodup_cons.mpr ⟨hEr ▸ htab.self, htab.peerRanks⟩)]
    intro q
    rw [htab.ranks q, List.mem_cons, hEr]
  · obtain ⟨k, hF⟩ := hfill s hs
    exact hF.sorted
  · obtain ⟨k, hF⟩ := hfill s hs
    rw [hF.mem_iff_of_lt hn]
    exact hmem _ _
  · obtain ⟨k, hF⟩ := hfill s hs
    refine ⟨hF.mineOffset, ?_⟩
    rw [hF.filter_lt (by rw [hown, hN])]
    rcases hF.counts with ⟨rfl, hmc, -⟩ | ⟨i, -, -, hmc, -⟩
    · rw [hmc, hF.rank, htab.loc.2, hEr, hnos]
    · exact hmc
  · obtain ⟨k, hF⟩ := hfill s hs
    exact (hrange k s hF).1
  · obtain ⟨k, hF⟩ := hfill s hs
    exact (hrange k s hF).2

/-- The second process of the two-process run ends with the sharer records `OwnedSharers` says. -/
theorem populateSharers_ownedSharers_twoRanks :
    ConsistentViews 2 twoRankViews twoRankNode ∧ (∀ r < 2, Traversed (twoRankViews r)) ∧ 1 < 2 ∧
      (twoRankViews 1).sharers = [] ∧ (twoRankViews 1).numOwnedShared = 0 ∧
      (∃ c < (twoRankViews 1).construct.length, (twoRankViews 1).isLocal c ∧
        ∃ q ∈ ((twoRankViews 1).construct.getD c default).ranks, q ≠ 1) ∧
      OwnedSharers twoRankViews 1 (System.final twoRankViews 1) :=
  have hv : ConsistentViews 2 twoRankViews twoRankNode :=
    ⟨by decide, by decide, by decide, by decide, by decide⟩
  have ht : ∀ r < 2, Traversed (twoRankViews r) := by decide
  ⟨hv, ht, by decide, by decide, by decide, by decide,
    populateSharers_ownedSharers hv ht (by decide) (by decide) (by decide) (by decide)⟩

end P4estTnodes
