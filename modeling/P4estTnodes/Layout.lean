import P4estTnodes.Agreement

/-!
# The local numbering of a process

For processes whose traversal results are consistent views of one mesh (`ConsistentViews`,
`Traversed`), this file describes the numbers each process gives its own candidates after the
exchange of `wait_query_reply`, and the table `nonlocal_nodes` it fills (`LocalLayout`):

* `exchange_localLayout`: the owned candidates take the numbers `0 .. owned_count - 1` in the
  order of `cnode_compare`, which is total on them; the shared-in candidates take the numbers
  `owned_count .. num_local_nodes - 1`, in blocks by owner rank, the block of each owner at
  `owned_count + shacumul` of its peer record and `bufcount` long, and inside a block in the order
  of the owner's numbers; `nonlocal_nodes` holds their global numbers, strictly increasing and
  below the process's own range.

The proof route. The owner slots of owned candidates are distinct (`slotKey_inj`), so the
insertion sort of `sort_allgather` numbers each owned candidate by the owned candidates below it
(`exchange_runid_owned_count`). A shared-in candidate is placed by the reply of its owner at
`owned_count + shacumul` plus the number of candidates of the same owner with a smaller owner's
number (`sharedIn_block`); the blocks of `sort_peers` are disjoint and tile `num_shared`
(`shacumulOf_add_le`, `Phase2At.shacumulOf_self`), which gives the order across blocks and,
by counting, that every position is taken (`sharedIn_surj`). The monotonicity of
`nonlocal_nodes` then follows from the prefix sums of the owned counts (`nonlocal_lt`).
-/

namespace P4estTnodes

/-! ## Order keys -/

lemma cnodeLt_iff_lex (cs : List Cnode) (a b : Nat) :
    cnodeLt cs a b ↔ toLex (slotKey cs a) < toLex (slotKey cs b) :=
  (Prod.Lex.lt_iff _ _).symm

lemma cnodeLt_irrefl (cs : List Cnode) (a : Nat) : ¬ cnodeLt cs a a := by
  rw [cnodeLt_iff_lex]; exact lt_irrefl _

lemma cnodeLt_trans {cs : List Cnode} {a b c : Nat} (hab : cnodeLt cs a b)
    (hbc : cnodeLt cs b c) : cnodeLt cs a c := by
  rw [cnodeLt_iff_lex] at *; exact hab.trans hbc

/-- An element is not below itself, so the elements below it are fewer than the list. -/
lemma length_filter_key_lt_length {α β : Type} [LinearOrder β] (f : α → β) {l : List α} {a : α}
    (ha : a ∈ l) : (l.filter fun x => f x < f a).length < l.length :=
  List.length_filter_lt_length_iff_exists.mpr ⟨a, ha, by simp⟩

/-! ## The owner's number and the local count -/

/-- The owner's number of candidate `c` of process `r`: the entry the owner's reply carries for
its query entry, the owner's `runid` of its own candidate of the node.
Source: `wait_query_reply` (part_000 ll. 1081–1104)
Kind: D -/
def System.ownerNumber (ms : Nat → TnodesMeta) (r c : Nat) : Int :=
  translateEntry (System.phase2 ms ((ms r).ownerRank c)) ((ms r).eposOf c)

/-- After `sort_allgather` a process has `owned_count + num_shared` local nodes.
Source: `sort_allgather` (part_000 ll. 843–846)
Kind: L -/
lemma phase2_numLocalNodes (ms : Nat → TnodesMeta) (r : Nat) :
    (System.phase2 ms r).numLocalNodes =
      (System.phase2 ms r).ownedCount + (System.phase2 ms r).numShared := by
  obtain ⟨_, _, _, _, e⟩ := sortPeers_frame (sortAllgather (System.phase1 ms r) (System.counts ms))
  rw [System.phase2, e, sortAllgather_eq]

namespace ConsistentViews

variable {P : Nat} {ms : Nat → TnodesMeta} {gnode : Nat → Nat → Nat}
  (hv : ConsistentViews P ms gnode) (ht : ∀ r < P, Traversed (ms r))
include hv ht

/-! ## The owned nodes -/

/-- The owner slot of an owned candidate holds the candidate itself.
Source: `owned_query_reply` (part_000 l. 808), with the hypothesis of the global numbering
Kind: L -/
lemma elementNodes_owned {r c : Nat} (hr : r < P) (hc : c < (ms r).construct.length)
    (ho : (ms r).ownerRank c = r) : (ms r).elementNodes ((ms r).eposOf c).toNat = c := by
  have hl := TnodesMeta.isLocal_of_owned ((ht r hr).registered c hc)
    (ho.trans (hv.rank r hr).1.symm)
  obtain ⟨-, c', hc', hl', hg, -, hen⟩ := hv.owner_slot ht hr hc hl ho
  rw [hen, hv.unique r hr c' hc' c hc hl' hl hg]

/-- **Owned candidates have distinct owner slots**, so `cnode_compare` orders them strictly.
Source: `cnode_compare` (part_000 ll. 700–727), with the hypothesis of the global numbering
Kind: L -/
lemma slotKey_inj {r c c' : Nat} (hr : r < P) (hc : c < (ms r).construct.length)
    (hc' : c' < (ms r).construct.length) (ho : (ms r).ownerRank c = r)
    (ho' : (ms r).ownerRank c' = r)
    (h : slotKey (ms r).construct c = slotKey (ms r).construct c') : c = c' := by
  have he : (ms r).eposOf c = (ms r).eposOf c' := by
    simp only [slotKey, Prod.mk.injEq] at h
    simp only [TnodesMeta.eposOf, h.1, h.2]
  have := hv.elementNodes_owned ht hr hc ho
  rw [he, hv.elementNodes_owned ht hr hc' ho'] at this
  exact_mod_cast this.symm

omit ht in
lemma mem_ownedBelow {r c : Nat} (hr : r < P) :
    c ∈ ownedBelow (ms r) (ms r).construct.length ↔
      c < (ms r).construct.length ∧ (ms r).ownerRank c = r := by
  rw [ownedBelow, List.mem_filter, List.mem_range, decide_eq_true_eq, (hv.rank r hr).1]

/-- **The number of an owned candidate** is the number of owned candidates with a smaller owner
slot.
Source: `sort_allgather` (part_000 ll. 832–841)
Kind: L -/
lemma exchange_runid_owned_count {r c : Nat} (hr : r < P) (hc : c < (ms r).construct.length)
    (ho : (ms r).ownerRank c = r) :
    ((System.exchange ms r).construct.getD c default).runid =
      ((ownedBelow (ms r) (ms r).construct.length).filter (cnodeLt (ms r).construct · c)).length := by
  rw [hv.exchange_runid_owned ht hr hc ho, ownedOrder, indexOf_insertionSort_cnodeLe
    (ms r).construct (ownedBelow (ms r) (ms r).construct.length) ((List.nodup_range _).filter _) (fun a ha b hb hab => hv.slotKey_inj ht hr
      ((hv.mem_ownedBelow hr).mp ha).1 ((hv.mem_ownedBelow hr).mp hb).1
      ((hv.mem_ownedBelow hr).mp ha).2 ((hv.mem_ownedBelow hr).mp hb).2 hab)
    ((hv.mem_ownedBelow hr).mpr ⟨hc, ho⟩)]

/-- Owned candidates are numbered in the order of their owner slots.
Source: `sort_allgather` (part_000 ll. 832–841)
Kind: L -/
lemma exchange_runid_owned_lt_iff {r c c' : Nat} (hr : r < P) (hc : c < (ms r).construct.length)
    (hc' : c' < (ms r).construct.length) (ho : (ms r).ownerRank c = r)
    (ho' : (ms r).ownerRank c' = r) :
    ((System.exchange ms r).construct.getD c default).runid <
      ((System.exchange ms r).construct.getD c' default).runid ↔
      cnodeLt (ms r).construct c c' := by
  rw [hv.exchange_runid_owned_count ht hr hc ho, hv.exchange_runid_owned_count ht hr hc' ho',
    Int.ofNat_lt, cnodeLt_iff_lex]
  simp only [cnodeLt_iff_lex]
  exact length_filter_key_lt_iff (fun x => toLex (slotKey (ms r).construct x))
    ((hv.mem_ownedBelow hr).mpr ⟨hc, ho⟩)

/-- `cnode_compare` is total on distinct owned candidates.
Source: `cnode_compare` (part_000 ll. 700–727)
Kind: L -/
lemma cnodeLt_total {r c c' : Nat} (hr : r < P) (hc : c < (ms r).construct.length)
    (hc' : c' < (ms r).construct.length) (ho : (ms r).ownerRank c = r)
    (ho' : (ms r).ownerRank c' = r) (hne : c ≠ c') :
    cnodeLt (ms r).construct c c' ∨ cnodeLt (ms r).construct c' c := by
  simp only [cnodeLt_iff_lex]
  rcases lt_trichotomy (toLex (slotKey (ms r).construct c)) (toLex (slotKey (ms r).construct c'))
    with h | h | h
  · exact Or.inl h
  · exact absurd (hv.slotKey_inj ht hr hc hc' ho ho' (toLex.injective h)) hne
  · exact Or.inr h

lemma exchange_ownedCount {r : Nat} (hr : r < P) :
    (System.exchange ms r).ownedCount = (ownedOrder (ms r)).length := by
  obtain ⟨cs, nl, ps, e⟩ := hv.exchange_eq ht hr
  rw [e, length_ownedOrder]
  exact (ht r hr).phase2.ownedCount

/-- **The owned nodes fill `0 .. owned_count - 1`**: every owned candidate is numbered below
`owned_count`, and every number below it is taken.
Source: `sort_allgather` (part_000 ll. 832–846)
Kind: L -/
lemma owned_range {r : Nat} (hr : r < P) :
    (∀ c < (ms r).construct.length, (ms r).ownerRank c = r →
      ∃ k < (System.exchange ms r).ownedCount,
        ((System.exchange ms r).construct.getD c default).runid = (k : Int)) ∧
    ∀ k < (System.exchange ms r).ownedCount, ∃ c < (ms r).construct.length,
      (ms r).ownerRank c = r ∧ ((System.exchange ms r).construct.getD c default).runid = (k : Int) := by
  rw [hv.exchange_ownedCount ht hr]
  refine ⟨fun c hc ho => ⟨_, List.indexOf_lt_length.mpr ((hv.mem_ownedOrder hr).mpr
    ⟨hc, ho⟩), hv.exchange_runid_owned ht hr hc ho⟩, fun k hk => ?_⟩
  obtain ⟨hc, hoc⟩ := (hv.mem_ownedOrder hr).mp (List.getElem_mem hk)
  have hnd : (ownedOrder (ms r)).Nodup :=
    (List.perm_insertionSort _ _).nodup_iff.mpr ((List.nodup_range _).filter _)
  exact ⟨_, hc, hoc, by rw [hv.exchange_runid_owned ht hr hc hoc, List.indexOf_getElem hnd]⟩

/-! ## The shared-in nodes -/

lemma exchange_shacumulOf {r : Nat} (hr : r < P) (q : Nat) :
    shacumulOf (System.exchange ms r).peers r q = shacumulOf (System.phase2 ms r).peers r q := by
  have hR := exchange_received ms r (hv.receiveReady ht hr)
  exact shacumulOf_congr r q (map_eq_of_getD _ hR.length fun j _ => by
    rw [(hR.core j).1, (hR.core j).2.1])

/-- **The block of a shared-in candidate.** A shared-in candidate is numbered in the block of its
owner's peer record, at `owned_count + shacumul` plus the number of candidates of the same owner
with a smaller owner's number; the block is as long as the peer's `bufcount`, which counts the
candidates queried from the owner, and the global number stored at the candidate's position of
`nonlocal_nodes` is the owner's offset plus its owner's number.
Source: `sort_peers` (part_000 ll. 940–950), `wait_query_reply` (ll. 1127–1165)
Kind: L -/
lemma sharedIn_block {r c : Nat} (hr : r < P) (hc : c < (ms r).construct.length)
    (hl : (ms r).isLocal c) (ho : (ms r).ownerRank c ≠ r) :
    (ms r).ownerRank c < r ∧ ∃ j < (System.exchange ms r).peers.length,
      ((System.exchange ms r).peers.getD j default).rank = (ms r).ownerRank c ∧
      ((System.exchange ms r).peers.getD j default).shacumul =
        shacumulOf (System.exchange ms r).peers r ((ms r).ownerRank c) ∧
      ((System.exchange ms r).peers.getD j default).bufcount =
        (queriedBelow (ms r) (ms r).construct.length ((ms r).ownerRank c)).length ∧
      ((System.exchange ms r).construct.getD c default).runid =
        (((System.exchange ms r).ownedCount + ((System.exchange ms r).peers.getD j default).shacumul +
          ((queriedBelow (ms r) (ms r).construct.length ((ms r).ownerRank c)).filter
            fun x => System.ownerNumber ms r x < System.ownerNumber ms r c).length : Nat) : Int) ∧
      (System.exchange ms r).nonlocalNodes (((System.exchange ms r).peers.getD j default).shacumul +
          ((queriedBelow (ms r) (ms r).construct.length ((ms r).ownerRank c)).filter
            fun x => System.ownerNumber ms r x < System.ownerNumber ms r c).length) =
        (System.exchange ms r).goffset ((ms r).ownerRank c) + System.ownerNumber ms r c := by
  have h2 := (ht r hr).phase2
  have hmr : (ms r).mpirank = r := (hv.rank r hr).1
  have hR := exchange_received ms r (hv.receiveReady ht hr)
  obtain ⟨hlt, -⟩ := hv.peer_of_sharedIn ht hr hc hl ho
  obtain ⟨j, hjl, hjr, hrun, hnl⟩ := hv.exchange_sharedIn ht hr hc hl ho
  obtain ⟨hrk, hbc, hsh, -⟩ := hR.core j
  have hcq : c ∈ queriedBelow (ms r) (ms r).construct.length ((ms r).ownerRank c) :=
    ((ht r hr).sharedIn hc hl fun h => ho (h.trans hmr)).2.2
  have hpos : replyPos ((System.phase2 ms r).peers.getD j default).sharedno
      (replyFor ms r (System.phase2 ms r) j) c =
      ((queriedBelow (ms r) (ms r).construct.length ((ms r).ownerRank c)).filter
        fun x => System.ownerNumber ms r x < System.ownerNumber ms r c).length := by
    rw [h2.sharedno hjl, hjr, replyFor, hjr, hv.reply_eq ht hr hlt, replyPos]
    refine congrArg List.length (List.filter_congr fun x hx => ?_)
    have hox : (ms r).ownerRank x = (ms r).ownerRank c := by
      simp only [queriedBelow, List.mem_filter, decide_eq_true_eq] at hx
      exact hx.2.2.2
    rw [replyValue_map _ hx, replyValue_map _ hcq, System.ownerNumber, System.ownerNumber, hox]
  obtain ⟨cs, nl, ps, e⟩ := hv.exchange_eq ht hr
  have hoc : (System.exchange ms r).ownedCount = (System.phase2 ms r).numOwned := by
    rw [e]; exact h2.ownedCount.trans h2.numOwned.symm
  refine ⟨hlt, j, hR.length ▸ hjl, hrk.trans hjr, ?_, ?_, ?_, ?_⟩
  · rw [hsh, h2.shacumul hjl, hmr, hjr, hv.exchange_shacumulOf ht hr]
  · rw [hbc, h2.bufcount hjl, (ht r hr).repliesBelow_lower (by rw [hmr, hjr]; exact hlt),
      Nat.zero_add, hjr]
  · rw [hrun, hoc, hsh, hpos]
  · rw [hsh, ← hpos, hnl, (hv.exchange_goffset ht hr).1]
    rfl

/-- The owner's number of a candidate with a local contributor is a position in the owner's
sorted owned list.
Source: `wait_query_reply` (part_000 ll. 1081–1104)
Kind: L -/
lemma ownerNumber_lt {r c : Nat} (hr : r < P) (hc : c < (ms r).construct.length)
    (hl : (ms r).isLocal c) :
    (ms r).ownerRank c < P ∧ 0 ≤ System.ownerNumber ms r c ∧
      System.ownerNumber ms r c < System.counts ms ((ms r).ownerRank c) := by
  obtain ⟨hP, c', hc', -, -, ho', e⟩ := hv.translateEntry_eposOf ht hr hc hl rfl
  have := hv.indexOf_lt_counts ht hP hc' ho'
  refine ⟨hP, ?_, ?_⟩ <;> rw [System.ownerNumber, e] <;> omega

lemma exchange_ranks_nodup {r : Nat} (hr : r < P) :
    ((System.exchange ms r).peers.map (·.rank)).Nodup := by
  have hR := exchange_received ms r (hv.receiveReady ht hr)
  rw [map_eq_of_getD _ hR.length fun j _ => (hR.core j).1]
  exact (ht r hr).phase2.ranks.1

/-- **Blocks in rank order.** Shared-in candidates of a lower owner come first.
Source: `sort_peers` (part_000 ll. 940–950), `wait_query_reply` (ll. 1142–1162)
Kind: L -/
lemma sharedIn_lt_of_owner_lt {r c c' : Nat} (hr : r < P) (hc : c < (ms r).construct.length)
    (hc' : c' < (ms r).construct.length) (hl : (ms r).isLocal c) (hl' : (ms r).isLocal c')
    (ho : (ms r).ownerRank c ≠ r) (ho' : (ms r).ownerRank c' ≠ r)
    (hoo : (ms r).ownerRank c < (ms r).ownerRank c') :
    ((System.exchange ms r).construct.getD c default).runid <
      ((System.exchange ms r).construct.getD c' default).runid := by
  have hmr : (ms r).mpirank = r := (hv.rank r hr).1
  obtain ⟨hlt, j, hj, hjr, hsh, hbc, hrun, -⟩ := hv.sharedIn_block ht hr hc hl ho
  obtain ⟨-, j', -, -, hsh', -, hrun', -⟩ := hv.sharedIn_block ht hr hc' hl' ho'
  have hcq := ((ht r hr).sharedIn hc hl fun h => ho (h.trans hmr)).2.2
  have hpos := length_filter_key_lt_length (System.ownerNumber ms r) hcq
  have hadd := shacumulOf_add_le (List.getD_eq_getElem _ _ hj ▸ List.getElem_mem hj)
    (hv.exchange_ranks_nodup ht hr) (hjr ▸ hoo) (hjr ▸ hlt)
  rw [hjr, ← hsh, hbc] at hadd
  rw [hrun, hrun', hsh']
  omega

/-- **Within a block, by the owner's number.**
Source: `wait_query_reply` (part_000 ll. 1140–1162)
Kind: L -/
lemma sharedIn_lt_iff {r c c' : Nat} (hr : r < P) (hc : c < (ms r).construct.length)
    (hc' : c' < (ms r).construct.length) (hl : (ms r).isLocal c) (hl' : (ms r).isLocal c')
    (ho : (ms r).ownerRank c ≠ r) (hoo : (ms r).ownerRank c = (ms r).ownerRank c') :
    ((System.exchange ms r).construct.getD c default).runid <
      ((System.exchange ms r).construct.getD c' default).runid ↔
      System.ownerNumber ms r c < System.ownerNumber ms r c' := by
  have hmr : (ms r).mpirank = r := (hv.rank r hr).1
  obtain ⟨-, j, -, -, hsh, -, hrun, -⟩ := hv.sharedIn_block ht hr hc hl ho
  obtain ⟨-, j', -, -, hsh', -, hrun', -⟩ := hv.sharedIn_block ht hr hc' hl' (hoo ▸ ho)
  have hcq := ((ht r hr).sharedIn hc hl fun h => ho (h.trans hmr)).2.2
  rw [hrun, hrun', hsh, hsh', ← hoo, Int.ofNat_lt, Nat.add_lt_add_iff_left]
  exact length_filter_key_lt_iff (System.ownerNumber ms r) hcq

/-- Distinct shared-in candidates get distinct numbers.
Source: `wait_query_reply` (part_000 ll. 1140–1162)
Kind: L -/
lemma sharedIn_runid_inj {r c c' : Nat} (hr : r < P) (hc : c < (ms r).construct.length)
    (hc' : c' < (ms r).construct.length) (hl : (ms r).isLocal c) (hl' : (ms r).isLocal c')
    (ho : (ms r).ownerRank c ≠ r) (ho' : (ms r).ownerRank c' ≠ r)
    (h : ((System.exchange ms r).construct.getD c default).runid =
      ((System.exchange ms r).construct.getD c' default).runid) : c = c' := by
  have hmr : (ms r).mpirank = r := (hv.rank r hr).1
  rcases Nat.lt_trichotomy ((ms r).ownerRank c) ((ms r).ownerRank c') with hoo | hoo | hoo
  · exact absurd h (hv.sharedIn_lt_of_owner_lt ht hr hc hc' hl hl' ho ho' hoo).ne
  · have h1 := (hv.sharedIn_lt_iff ht hr hc hc' hl hl' ho hoo).not.mp h.not_lt
    have h2 := (hv.sharedIn_lt_iff ht hr hc' hc hl' hl ho' hoo.symm).not.mp h.symm.not_lt
    have hcq := ((ht r hr).sharedIn hc hl fun h => ho (h.trans hmr)).2.2
    have hcq' := ((ht r hr).sharedIn hc' hl' fun h => ho' (h.trans hmr)).2.2
    rw [← hoo] at hcq'
    refine hv.translateEntry_inj ht hr hcq hcq' ?_
    have := le_antisymm (not_lt.mp h2) (not_lt.mp h1)
    rwa [System.ownerNumber, System.ownerNumber, ← hoo] at this
  · exact absurd h (hv.sharedIn_lt_of_owner_lt ht hr hc' hc hl' hl ho' ho hoo).ne'

/-! ## The local numbering as a whole -/

omit ht in
lemma mem_sharedBelow {r c : Nat} (hr : r < P) :
    c ∈ sharedBelow (ms r) (ms r).construct.length ↔
      c < (ms r).construct.length ∧ (ms r).isLocal c ∧ (ms r).ownerRank c ≠ r := by
  simp only [sharedBelow, List.mem_filter, List.mem_range, decide_eq_true_eq, (hv.rank r hr).1]

lemma exchange_numShared {r : Nat} (hr : r < P) :
    (System.exchange ms r).numShared = (sharedBelow (ms r) (ms r).construct.length).length := by
  obtain ⟨cs, nl, ps, e⟩ := hv.exchange_eq ht hr
  rw [e]
  exact (ht r hr).phase2.numShared

lemma exchange_numLocalNodes {r : Nat} (hr : r < P) :
    (System.exchange ms r).numLocalNodes =
      (System.exchange ms r).ownedCount + (System.exchange ms r).numShared := by
  obtain ⟨cs, nl, ps, e⟩ := hv.exchange_eq ht hr
  rw [e]
  exact phase2_numLocalNodes ms r

/-- **A shared-in candidate lies past the owned nodes**, at `owned_count + k` for a `k` below
`num_shared`, and `nonlocal_nodes[k]` is its global number.
Source: `sort_peers` (part_000 ll. 940–950), `wait_query_reply` (ll. 1127–1165)
Kind: L -/
lemma sharedIn_pos {r c : Nat} (hr : r < P) (hc : c < (ms r).construct.length)
    (hl : (ms r).isLocal c) (ho : (ms r).ownerRank c ≠ r) :
    ∃ k < (System.exchange ms r).numShared,
      ((System.exchange ms r).construct.getD c default).runid =
        (((System.exchange ms r).ownedCount + k : Nat) : Int) ∧
      (System.exchange ms r).nonlocalNodes k =
        (System.exchange ms r).goffset ((ms r).ownerRank c) + System.ownerNumber ms r c := by
  have hmr : (ms r).mpirank = r := (hv.rank r hr).1
  obtain ⟨hlt, j, hj, hjr, hsh, hbc, hrun, hnl⟩ := hv.sharedIn_block ht hr hc hl ho
  have hcq := ((ht r hr).sharedIn hc hl fun h => ho (h.trans hmr)).2.2
  have hpos := length_filter_key_lt_length (System.ownerNumber ms r) hcq
  have hadd := shacumulOf_add_le (List.getD_eq_getElem _ _ hj ▸ List.getElem_mem hj)
    (hv.exchange_ranks_nodup ht hr) (hjr ▸ hlt) (hjr ▸ hlt)
  have hall : shacumulOf (System.exchange ms r).peers r r = (System.exchange ms r).numShared := by
    have := (ht r hr).phase2.shacumulOf_self (ht r hr)
    rw [hmr] at this
    rw [hv.exchange_shacumulOf ht hr, hv.exchange_numShared ht hr, this]
  rw [hjr, ← hsh, hbc, hall] at hadd
  exact ⟨_, by omega, by rw [hrun, Nat.add_assoc], hnl⟩

/-- **Every position past the owned nodes is taken.** The shared-in candidates fill
`owned_count + k` for every `k` below `num_shared`.
Source: `owned_query_reply` (part_000 ll. 802–815), `wait_query_reply` (ll. 1127–1165)
Kind: L -/
lemma sharedIn_surj {r k : Nat} (hr : r < P) (hk : k < (System.exchange ms r).numShared) :
    ∃ c < (ms r).construct.length, (ms r).isLocal c ∧ (ms r).ownerRank c ≠ r ∧
      ((System.exchange ms r).construct.getD c default).runid =
        (((System.exchange ms r).ownedCount + k : Nat) : Int) := by
  let oc := (System.exchange ms r).ownedCount
  let pos : Nat → Nat := fun c => ((System.exchange ms r).construct.getD c default).runid.toNat - oc
  have hpos : ∀ c ∈ sharedBelow (ms r) (ms r).construct.length, ∃ k' <
      (System.exchange ms r).numShared, pos c = k' ∧
      ((System.exchange ms r).construct.getD c default).runid = ((oc + k' : Nat) : Int) :=
    fun c hc => by
      obtain ⟨hc, hl, ho⟩ := (hv.mem_sharedBelow hr).mp hc
      obtain ⟨k', hk', hrun, -⟩ := hv.sharedIn_pos ht hr hc hl ho
      exact ⟨k', hk', by simp only [pos, hrun, Int.toNat_ofNat]; omega, hrun⟩
  have hnd : (sharedBelow (ms r) (ms r).construct.length).Nodup := (List.nodup_range _).filter _
  have key : ∀ b ∈ Finset.range (System.exchange ms r).numShared, ∃ c,
      ∃ (_ : c ∈ (sharedBelow (ms r) (ms r).construct.length).toFinset), b = pos c :=
    Finset.surj_on_of_inj_on_of_card_le (fun c _ => pos c)
      (fun c hc => by
        obtain ⟨k', hk', hp, -⟩ := hpos c (List.mem_toFinset.mp hc)
        exact Finset.mem_range.mpr (lt_of_eq_of_lt hp hk'))
      (fun a b ha hb hab => by
        obtain ⟨ka, -, hpa, hra⟩ := hpos a (List.mem_toFinset.mp ha)
        obtain ⟨kb, -, hpb, hrb⟩ := hpos b (List.mem_toFinset.mp hb)
        obtain ⟨hac, hal, hao⟩ := (hv.mem_sharedBelow hr).mp (List.mem_toFinset.mp ha)
        obtain ⟨hbc, hbl, hbo⟩ := (hv.mem_sharedBelow hr).mp (List.mem_toFinset.mp hb)
        refine hv.sharedIn_runid_inj ht hr hac hbc hal hbl hao hbo ?_
        rw [hra, hrb, ← hpa, ← hpb]
        exact congrArg (fun x => ((oc + x : Nat) : Int)) hab)
      (by rw [Finset.card_range, List.toFinset_card_of_nodup hnd, hv.exchange_numShared ht hr])
  obtain ⟨c, hc, e⟩ := key k (Finset.mem_range.mpr hk)
  obtain ⟨k', -, hp, hrun⟩ := hpos c (List.mem_toFinset.mp hc)
  obtain ⟨hc, hl, ho⟩ := (hv.mem_sharedBelow hr).mp (List.mem_toFinset.mp hc)
  exact ⟨c, hc, hl, ho, by rw [hrun, e, hp]⟩

/-- The entry of `nonlocal_nodes` at a shared-in candidate's position is its global number.
Source: `wait_query_reply` (part_000 ll. 1155–1162)
Kind: L -/
lemma nonlocal_of_runid {r c k : Nat} (hr : r < P) (hc : c < (ms r).construct.length)
    (hl : (ms r).isLocal c) (ho : (ms r).ownerRank c ≠ r)
    (hrun : ((System.exchange ms r).construct.getD c default).runid =
      (((System.exchange ms r).ownedCount + k : Nat) : Int)) :
    (System.exchange ms r).nonlocalNodes k =
      prefixSum (System.counts ms) ((ms r).ownerRank c) + System.ownerNumber ms r c := by
  obtain ⟨k', -, hrun', hnl⟩ := hv.sharedIn_pos ht hr hc hl ho
  have hk : k = k' := by have := Int.ofNat_inj.mp (hrun.symm.trans hrun'); omega
  rw [hk, hnl, (hv.exchange_goffset ht hr).1]

/-- **`nonlocal_nodes` is strictly increasing**: across blocks because the owners' ranges come
in rank order, within a block because the replies are sorted by the owner's number.
Source: `wait_query_reply` (part_000 ll. 1166–1175)
Kind: L -/
lemma nonlocal_lt {r k k' : Nat} (hr : r < P) (hkk : k < k')
    (hk' : k' < (System.exchange ms r).numShared) :
    (System.exchange ms r).nonlocalNodes k < (System.exchange ms r).nonlocalNodes k' := by
  obtain ⟨c, hc, hl, ho, hrun⟩ := hv.sharedIn_surj ht hr (hkk.trans hk')
  obtain ⟨c', hc', hl', ho', hrun'⟩ := hv.sharedIn_surj ht hr hk'
  rw [hv.nonlocal_of_runid ht hr hc hl ho hrun, hv.nonlocal_of_runid ht hr hc' hl' ho' hrun']
  have hlt : ((System.exchange ms r).construct.getD c default).runid <
      ((System.exchange ms r).construct.getD c' default).runid := by
    rw [hrun, hrun', Int.ofNat_lt]; omega
  obtain ⟨-, h0, hn⟩ := hv.ownerNumber_lt ht hr hc hl
  obtain ⟨-, h0', -⟩ := hv.ownerNumber_lt ht hr hc' hl'
  rcases Nat.lt_trichotomy ((ms r).ownerRank c) ((ms r).ownerRank c') with hoo | hoo | hoo
  · have := prefixSum_add_lt (System.counts ms) hoo
      (show (System.ownerNumber ms r c).toNat < System.counts ms ((ms r).ownerRank c) by omega)
    omega
  · rw [hoo, Int.add_lt_add_iff_left]
    exact (hv.sharedIn_lt_iff ht hr hc hc' hl hl' ho hoo).mp hlt
  · exact absurd hlt (hv.sharedIn_lt_of_owner_lt ht hr hc' hc hl' hl ho' ho hoo).not_lt

/-- **`nonlocal_nodes` lies below the process's own range.** Every entry is a global number
of a lower process.
Source: `wait_query_reply` (part_000 ll. 1166–1175)
Kind: L -/
lemma nonlocal_range {r k : Nat} (hr : r < P) (hk : k < (System.exchange ms r).numShared) :
    0 ≤ (System.exchange ms r).nonlocalNodes k ∧
      (System.exchange ms r).nonlocalNodes k < (System.exchange ms r).goffset r := by
  obtain ⟨c, hc, hl, ho, hrun⟩ := hv.sharedIn_surj ht hr hk
  obtain ⟨hlt, -⟩ := hv.sharedIn_block ht hr hc hl ho
  obtain ⟨-, h0, hn⟩ := hv.ownerNumber_lt ht hr hc hl
  have := prefixSum_add_lt (System.counts ms) hlt
    (show (System.ownerNumber ms r c).toNat < System.counts ms ((ms r).ownerRank c) by omega)
  rw [hv.nonlocal_of_runid ht hr hc hl ho hrun, (hv.exchange_goffset ht hr).1]
  omega

/-- The owner's number of a shared-in candidate is the owner's final `runid` of its candidate of
the same node.
Source: `wait_query_reply` (part_000 ll. 1081–1104)
Kind: L -/
lemma ownerNumber_eq_runid {r c : Nat} (hr : r < P) (hc : c < (ms r).construct.length)
    (hl : (ms r).isLocal c) :
    ∃ c' < (ms ((ms r).ownerRank c)).construct.length, gnode ((ms r).ownerRank c) c' = gnode r c ∧
      (ms ((ms r).ownerRank c)).ownerRank c' = (ms r).ownerRank c ∧
      System.ownerNumber ms r c =
        ((System.exchange ms ((ms r).ownerRank c)).construct.getD c' default).runid := by
  obtain ⟨hP, c', hc', -, hg, ho', e⟩ := hv.translateEntry_eposOf ht hr hc hl rfl
  exact ⟨c', hc', hg, ho', by rw [System.ownerNumber, e, hv.exchange_runid_owned ht hP hc' ho']⟩

end ConsistentViews


/-- **The local numbering of a process** after the exchange `m`: owned candidates first, in the
order of `cnode_compare`, then the shared-in candidates in blocks by owner rank, each block at
`owned_count + shacumul` of the owner's peer record and `bufcount` long, ordered inside by the
owner's number; `nonlocal_nodes` holds their global numbers, increasing and below the process's
own range.
Source: `sort_allgather` (part_000 ll. 825–860), `sort_peers` (ll. 922–977),
`wait_query_reply` (ll. 1129–1175)
Kind: D -/
structure LocalLayout (ms : Nat → TnodesMeta) (gnode : Nat → Nat → Nat) (r : Nat)
    (m : TnodesMeta) : Prop where
  /-- Owned candidates are numbered below `owned_count`. -/
  owned : ∀ c < (ms r).construct.length, (ms r).ownerRank c = r →
    ∃ k < m.ownedCount, (m.construct.getD c default).runid = (k : Int)
  /-- Every number below `owned_count` is an owned candidate's. -/
  owned_surj : ∀ k < m.ownedCount, ∃ c < (ms r).construct.length,
    (ms r).ownerRank c = r ∧ (m.construct.getD c default).runid = (k : Int)
  /-- Owned candidates are numbered in the order of `cnode_compare`. -/
  owned_lt_iff : ∀ c < (ms r).construct.length, ∀ c' < (ms r).construct.length,
    (ms r).ownerRank c = r → (ms r).ownerRank c' = r →
      ((m.construct.getD c default).runid < (m.construct.getD c' default).runid ↔
        cnodeLt (ms r).construct c c')
  /-- `cnode_compare` is a strict order. -/
  owned_strict : (∀ c, ¬ cnodeLt (ms r).construct c c) ∧ ∀ a b c, cnodeLt (ms r).construct a b →
    cnodeLt (ms r).construct b c → cnodeLt (ms r).construct a c
  /-- `cnode_compare` is total on distinct owned candidates. -/
  owned_total : ∀ c < (ms r).construct.length, ∀ c' < (ms r).construct.length,
    (ms r).ownerRank c = r → (ms r).ownerRank c' = r → c ≠ c' →
      cnodeLt (ms r).construct c c' ∨ cnodeLt (ms r).construct c' c
  /-- The local nodes are the owned and the shared-in ones. -/
  numLocalNodes : m.numLocalNodes = m.ownedCount + m.numShared
  /-- Shared-in candidates are numbered from `owned_count` below `num_local_nodes`. -/
  shared : ∀ c < (ms r).construct.length, (ms r).isLocal c → (ms r).ownerRank c ≠ r →
    ∃ k < m.numShared, (m.construct.getD c default).runid = ((m.ownedCount + k : Nat) : Int)
  /-- Every number from `owned_count` below `num_local_nodes` is a shared-in candidate's. -/
  shared_surj : ∀ k < m.numShared, ∃ c < (ms r).construct.length, (ms r).isLocal c ∧
    (ms r).ownerRank c ≠ r ∧ (m.construct.getD c default).runid = ((m.ownedCount + k : Nat) : Int)
  /-- A shared-in candidate lies in the block of its owner's peer record, which starts at
  `owned_count + shacumul` and is as long as the number of candidates queried from the owner. -/
  block : ∀ c < (ms r).construct.length, (ms r).isLocal c → (ms r).ownerRank c ≠ r →
    (ms r).ownerRank c < r ∧ ∃ j < m.peers.length,
      (m.peers.getD j default).rank = (ms r).ownerRank c ∧
      (m.peers.getD j default).shacumul = shacumulOf m.peers r ((ms r).ownerRank c) ∧
      (m.peers.getD j default).bufcount =
        (queriedBelow (ms r) (ms r).construct.length ((ms r).ownerRank c)).length ∧
      (((m.ownedCount + (m.peers.getD j default).shacumul : Nat) : Int) ≤
        (m.construct.getD c default).runid) ∧
      (m.construct.getD c default).runid < ((m.ownedCount + (m.peers.getD j default).shacumul +
        (m.peers.getD j default).bufcount : Nat) : Int)
  /-- The blocks come in owner rank order. -/
  block_order : ∀ c < (ms r).construct.length, ∀ c' < (ms r).construct.length,
    (ms r).isLocal c → (ms r).isLocal c' → (ms r).ownerRank c ≠ r → (ms r).ownerRank c' ≠ r →
      (ms r).ownerRank c < (ms r).ownerRank c' →
        (m.construct.getD c default).runid < (m.construct.getD c' default).runid
  /-- Inside a block the candidates are in the order of the owner's numbers. -/
  within_block : ∀ c < (ms r).construct.length, ∀ c' < (ms r).construct.length,
    (ms r).isLocal c → (ms r).isLocal c' → (ms r).ownerRank c ≠ r →
      (ms r).ownerRank c = (ms r).ownerRank c' →
        ((m.construct.getD c default).runid < (m.construct.getD c' default).runid ↔
          System.ownerNumber ms r c < System.ownerNumber ms r c')
  /-- The owner's number is the owner's final `runid` of its candidate of the node. -/
  ownerNumber : ∀ c < (ms r).construct.length, (ms r).isLocal c →
    ∃ c' < (ms ((ms r).ownerRank c)).construct.length, gnode ((ms r).ownerRank c) c' = gnode r c ∧
      (ms ((ms r).ownerRank c)).ownerRank c' = (ms r).ownerRank c ∧
      System.ownerNumber ms r c =
        ((System.exchange ms ((ms r).ownerRank c)).construct.getD c' default).runid
  /-- `nonlocal_nodes` at a shared-in candidate's position holds its global number. -/
  nonlocal : ∀ c < (ms r).construct.length, (ms r).isLocal c → (ms r).ownerRank c ≠ r → ∀ k,
    (m.construct.getD c default).runid = ((m.ownedCount + k : Nat) : Int) →
      m.nonlocalNodes k = m.goffset ((ms r).ownerRank c) + System.ownerNumber ms r c
  /-- `nonlocal_nodes` is strictly increasing. -/
  nonlocal_lt : ∀ k k', k < k' → k' < m.numShared → m.nonlocalNodes k < m.nonlocalNodes k'
  /-- `nonlocal_nodes` lies below the process's own range. -/
  nonlocal_range : ∀ k < m.numShared, 0 ≤ m.nonlocalNodes k ∧ m.nonlocalNodes k < m.goffset r

/-- **The local numbering.** For processes whose traversal results are consistent views of one
mesh, every process ends the exchange with the layout `LocalLayout` describes. -/
theorem exchange_localLayout {P : Nat} {ms : Nat → TnodesMeta} {gnode : Nat → Nat → Nat}
    (hv : ConsistentViews P ms gnode) (ht : ∀ r < P, Traversed (ms r)) {r : Nat} (hr : r < P) :
    LocalLayout ms gnode r (System.exchange ms r) where
  owned := (hv.owned_range ht hr).1
  owned_surj := (hv.owned_range ht hr).2
  owned_lt_iff _ hc _ hc' ho ho' := hv.exchange_runid_owned_lt_iff ht hr hc hc' ho ho'
  owned_strict := ⟨cnodeLt_irrefl _, fun _ _ _ => cnodeLt_trans⟩
  owned_total _ hc _ hc' ho ho' := hv.cnodeLt_total ht hr hc hc' ho ho'
  numLocalNodes := hv.exchange_numLocalNodes ht hr
  shared _ hc hl ho := by
    obtain ⟨k, hk, hrun, -⟩ := hv.sharedIn_pos ht hr hc hl ho
    exact ⟨k, hk, hrun⟩
  shared_surj _ hk := hv.sharedIn_surj ht hr hk
  block _ hc hl ho := by
    obtain ⟨hlt, j, hj, hjr, hsh, hbc, hrun, -⟩ := hv.sharedIn_block ht hr hc hl ho
    have hpos := length_filter_key_lt_length (System.ownerNumber ms r)
      ((ht r hr).sharedIn hc hl fun h => ho (h.trans (hv.rank r hr).1)).2.2
    refine ⟨hlt, j, hj, hjr, hsh, hbc, ?_, ?_⟩ <;> rw [hrun] <;> omega
  block_order _ hc _ hc' hl hl' ho ho' := hv.sharedIn_lt_of_owner_lt ht hr hc hc' hl hl' ho ho'
  within_block _ hc _ hc' hl hl' ho := hv.sharedIn_lt_iff ht hr hc hc' hl hl' ho
  ownerNumber _ hc hl := hv.ownerNumber_eq_runid ht hr hc hl
  nonlocal _ hc hl ho _ hrun := by
    rw [hv.nonlocal_of_runid ht hr hc hl ho hrun, (hv.exchange_goffset ht hr).1]
  nonlocal_lt _ _ hkk hk' := hv.nonlocal_lt ht hr hkk hk'
  nonlocal_range _ hk := hv.nonlocal_range ht hr hk

/-- The second process of the two-process run lays out its local nodes as `LocalLayout` says. -/
theorem exchange_localLayout_twoRanks :
    ConsistentViews 2 twoRankViews twoRankNode ∧ (∀ r < 2, Traversed (twoRankViews r)) ∧ 1 < 2 ∧
      LocalLayout twoRankViews twoRankNode 1 (System.exchange twoRankViews 1) :=
  have hv : ConsistentViews 2 twoRankViews twoRankNode :=
    ⟨by decide, by decide, by decide, by decide, by decide⟩
  have ht : ∀ r < 2, Traversed (twoRankViews r) := by decide
  ⟨hv, ht, by decide, exchange_localLayout hv ht (by decide)⟩

end P4estTnodes
