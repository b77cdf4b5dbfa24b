import P4estTnodes.Sharers

/-!
# The sharer records of two processes pair up

For processes whose traversal results are consistent views of one mesh (`ConsistentViews`,
`Traversed`), the sharer records of two processes that share a node pair up:

* `final_sharers_agree`: the process `p` has a record for `q` and `q` one for `p`; the entries of
  `p`'s record that `shared_mine_offset` and `shared_mine_count` delimit, taken to global numbers
  by `global_offset`, are in order the global numbers that `nonlocal_nodes` of `q` holds for the
  local nodes its record delimits with `owned_offset` and `owned_count`. This is what lets an
  owner send one value per shared node and the other process store them at consecutive local
  nodes. When `p > q` both lists are empty: the owner of a node is its lowest contributor.

The proof route. A candidate `p` owns and shares with `q` has a candidate of the same node on `q`
with a local contributor (`SlotsReal`), of the same owner (`ownerRank_eq`) and global number
(`globalId_agree`); conversely a candidate `q` shares in from `p` has its owner's candidate, whose
contributors include `q` (`SameRanks`), so that it has at least two (`sharedOwned_iff`). The
owned entries are the owned candidates shared with `q` (`mem_ownedGlobals_iff`), the owned range
covers exactly the candidates `p` owns (`mem_rangeGlobals_iff`), and both lists are increasing:
the owned entries as local numbers are, and `nonlocal_nodes` is increasing (`nonlocal_lt`).
Increasing lists with the same members are equal.

The entries from `num_owned` on are not involved: the other direction of the pairing, the
shared-in nodes of `q` in its record for `p`, is where the code pushes each node into one record
only (`populateSharers_sharedIn_twoRanks`).
-/

namespace P4estTnodes

/-- A list with two distinct members has at least two. -/
lemma one_lt_length_of_mem_of_ne {α : Type} [DecidableEq α] {l : List α} {a b : α} (ha : a ∈ l)
    (hb : b ∈ l) (hab : a ≠ b) : 1 < l.length := by
  have h1 := List.length_erase_of_mem ha
  have h2 := List.length_pos_of_mem ((List.mem_erase_of_ne hab.symm).mpr hb)
  omega

/-! ## Records of another rank -/

/-- A filled record of another rank is a peer's record: its owned entries come first, `shared_mine_count`
many, and its owned range starts at `num_owned` plus the peer's `shacumul`. -/
lemma FilledRecord.peer {me : TnodesMeta} {k : Nat} {s : Sharer} (h : FilledRecord me k s)
    (htab : SharerTable me) (hsr : s.rank ≠ me.mpirank) :
    ∃ i < me.peers.length, (me.peers.getD i default).sharind = k ∧
      s.sharedMineCount = (ownedSharedWith me me.ownsort.enum s.rank).length ∧
      s.ownedOffset = me.numOwned + (me.peers.getD i default).shacumul ∧
      s.ownedCount = if (me.peers.getD i default).rank < me.mpirank then
        ((me.peers.getD i default).bufcount : Int) else 0 :=
  h.counts.resolve_left fun ⟨hk, _⟩ => hsr (h.rank.trans (hk ▸ htab.loc.2))

/-- The entries of a peer's record that `shared_mine_offset` and `shared_mine_count` delimit are
its owned entries. -/
lemma FilledRecord.mine_eq {me : TnodesMeta} {k : Nat} {s : Sharer} (h : FilledRecord me k s)
    (htab : SharerTable me) (hsr : s.rank ≠ me.mpirank) :
    (s.sharedNodes.drop s.sharedMineOffset.toNat).take s.sharedMineCount.toNat =
      ownedSharedWith me me.ownsort.enum s.rank := by
  obtain ⟨ext, he, -⟩ := h.owned
  obtain ⟨i, -, -, hmc, -⟩ := h.peer htab hsr
  rw [h.mineOffset, hmc, he, Int.toNat_zero, List.drop_zero, Int.toNat_ofNat, List.take_left]

namespace ConsistentViews

variable {P : Nat} {ms : Nat → TnodesMeta} {gnode : Nat → Nat → Nat}
  (hv : ConsistentViews P ms gnode) (ht : ∀ r < P, Traversed (ms r))
include hv ht

omit ht in
/-- A process is among the contributors of its candidates with a local contributor. -/
lemma rank_mem_ranks {r c : Nat} (hr : r < P) (hl : (ms r).isLocal c) :
    r ∈ ((ms r).construct.getD c default).ranks := by
  have h : (ms r).mpirank ∈ ((ms r).construct.getD c default).ranks := hl
  rwa [(hv.rank r hr).1] at h

/-! ## Global numbers of owned and shared-in candidates -/

/-- An owned candidate's global number is the process's offset plus its local number. -/
lemma globalId_owned {r c : Nat} (hr : r < P) (hc : c < (ms r).construct.length)
    (ho : (ms r).ownerRank c = r) :
    (System.exchange ms r).globalId c = (System.exchange ms r).globalOffset +
      ((System.exchange ms r).construct.getD c default).runid := by
  obtain ⟨k, hk, hrun⟩ := (hv.owned_range ht hr).1 c hc ho
  simp only [TnodesMeta.globalId, hrun, Int.ofNat_lt, hk, if_true]

/-- A shared-in candidate's global number is the entry of `nonlocal_nodes` at its position past
the owned nodes. -/
lemma globalId_sharedIn {r c : Nat} (hr : r < P) (hc : c < (ms r).construct.length)
    (hl : (ms r).isLocal c) (ho : (ms r).ownerRank c ≠ r) :
    ∃ k < (System.exchange ms r).numShared,
      ((System.exchange ms r).construct.getD c default).runid =
        (((System.exchange ms r).ownedCount + k : Nat) : Int) ∧
      (System.exchange ms r).globalId c = (System.exchange ms r).nonlocalNodes k := by
  obtain ⟨k, hk, hrun, -⟩ := hv.sharedIn_pos ht hr hc hl ho
  refine ⟨k, hk, hrun, ?_⟩
  simp only [TnodesMeta.globalId, hrun]
  rw [if_neg (by omega)]
  exact congrArg (System.exchange ms r).nonlocalNodes (by omega)

/-! ## The two sides of the pairing -/

/-- **The candidates `p` shares with `q` are those `q` shares in from `p`**, with the same global
numbers.
Source: `owned_query_reply` (part_000 ll. 762–815), `wait_query_reply` (ll. 1127–1165)
Kind: L -/
lemma sharedOwned_iff {p q : Nat} (hp : p < P) (hq : q < P) (hpq : p ≠ q) (x : Int) :
    (∃ c < (ms p).construct.length, (ms p).ownerRank c = p ∧
      1 < ((ms p).construct.getD c default).contr.length ∧
      q ∈ ((ms p).construct.getD c default).ranks ∧ x = (System.exchange ms p).globalId c) ↔
    ∃ c' < (ms q).construct.length, (ms q).isLocal c' ∧ (ms q).ownerRank c' = p ∧
      x = (System.exchange ms q).globalId c' := by
  have hmp := (hv.rank p hp).1
  constructor
  · rintro ⟨c, hc, ho, -, hqc, rfl⟩
    have hreg := (ht p hp).registered c hc
    have hl := TnodesMeta.isLocal_of_owned hreg (ho.trans hmp.symm)
    obtain ⟨e, he, rfl⟩ := List.mem_map.mp hqc
    obtain ⟨-, c', hc', -, hl', hg⟩ := hv.slots p hp c hc hl e he
    have hoo := hv.ownerRank_eq ht hp hq hc hc' hl hl' hg.symm
    exact ⟨c', hc', hl', hoo.symm.trans ho, hv.globalId_agree ht hp hq hc hc' hl hl' hg.symm⟩
  · rintro ⟨c', hc', hl', ho', rfl⟩
    obtain ⟨-, c, hc, hl, hg, ho, -⟩ := hv.owner_slot ht hq hc' hl' ho'
    have hqr : q ∈ ((ms p).construct.getD c default).ranks :=
      hv.sameRanks q hq p hp c' hc' c hc hl' hl hg.symm _ (hv.rank_mem_ranks hq hl')
    have h2 := one_lt_length_of_mem_of_ne (hv.rank_mem_ranks hp hl) hqr hpq
    rw [Cnode.ranks, List.length_map] at h2
    exact ⟨c, hc, ho, h2, hqr, (hv.globalId_agree ht hp hq hc hc' hl hl' hg).symm⟩

/-- **The owner's side.** The owned entries of rank `q`, taken to global numbers, are the global
numbers of the owned candidates shared with `q`.
Source: `populate_sharers` (part_000 ll. 1312–1334)
Kind: L -/
lemma mem_ownedGlobals_iff {r q : Nat} (hr : r < P) (x : Int) :
    x ∈ (ownedSharedWith (System.exchange ms r) (ownedOrder (ms r)).enum q).map
        (fun n => (((System.exchange ms r).globalOffset + n : Nat) : Int)) ↔
      ∃ c < (ms r).construct.length, (ms r).ownerRank c = r ∧
        1 < ((ms r).construct.getD c default).contr.length ∧
        q ∈ ((ms r).construct.getD c default).ranks ∧ x = (System.exchange ms r).globalId c := by
  simp only [List.mem_map, hv.mem_ownedSharedWith_iff ht hr]
  constructor
  · rintro ⟨n, ⟨c, hc, ho, h1, hq, hrun⟩, rfl⟩
    exact ⟨c, hc, ho, h1, hq, by rw [hv.globalId_owned ht hr hc ho, hrun]; push_cast; rfl⟩
  · rintro ⟨c, hc, ho, h1, hq, rfl⟩
    obtain ⟨n, -, hrun⟩ := (hv.owned_range ht hr).1 c hc ho
    exact ⟨n, ⟨c, hc, ho, h1, hq, hrun⟩, by rw [hv.globalId_owned ht hr hc ho, hrun]; push_cast; rfl⟩

section range

variable {r k : Nat} (hr : r < P) (htab : SharerTable (System.exchange ms r)) {s : Sharer}
  (hF : FilledRecord (System.exchange ms r) k s) (hsr : s.rank ≠ r)
include hr htab hF hsr

/-- Each position of a peer record's owned range holds a candidate the peer owns, numbered by
`nonlocal_nodes` at that position past the owned nodes. -/
lemma rangeGlobals_pos {n : Nat} (hn : n < s.ownedCount.toNat) :
    ∃ c < (ms r).construct.length, (ms r).isLocal c ∧ (ms r).ownerRank c = s.rank ∧
      (s.ownedOffset - (System.exchange ms r).ownedCount).toNat + n <
        (System.exchange ms r).numShared ∧
      (System.exchange ms r).globalId c =
        (System.exchange ms r).nonlocalNodes
          ((s.ownedOffset - (System.exchange ms r).ownedCount).toNat + n) := by
  obtain ⟨-, hEr, -, hN, hoc⟩ := hv.exchange_owned ht hr
  obtain ⟨i, -, -, -, ho0, -⟩ := hF.peer htab fun h => hsr (h.trans hEr)
  obtain ⟨c, hc, hl, ho, hrun⟩ := (hv.filled_ownedRange ht hr htab hF).2 n hn
  obtain ⟨k', hk', hrun', hid⟩ := hv.globalId_sharedIn ht hr hc hl (ho.trans_ne hsr)
  have hk : (s.ownedOffset - (System.exchange ms r).ownedCount).toNat + n = k' := by omega
  rw [hk]
  exact ⟨c, hc, hl, ho, hk', hid⟩

/-- **The other side.** The entries of `nonlocal_nodes` at a peer record's owned range are the
global numbers of the candidates the peer owns.
Source: `populate_sharers` (part_000 ll. 1341–1362), `wait_query_reply` (ll. 1155–1175)
Kind: L -/
lemma mem_rangeGlobals_iff (x : Int) :
    x ∈ (List.range s.ownedCount.toNat).map (fun n => (System.exchange ms r).nonlocalNodes
        ((s.ownedOffset - (System.exchange ms r).ownedCount).toNat + n)) ↔
      ∃ c < (ms r).construct.length, (ms r).isLocal c ∧ (ms r).ownerRank c = s.rank ∧
        x = (System.exchange ms r).globalId c := by
  rw [List.mem_map]
  constructor
  · rintro ⟨n, hn, rfl⟩
    obtain ⟨c, hc, hl, ho, -, hid⟩ := hv.rangeGlobals_pos ht hr htab hF hsr (List.mem_range.mp hn)
    exact ⟨c, hc, hl, ho, hid.symm⟩
  · rintro ⟨c, hc, hl, ho, rfl⟩
    obtain ⟨-, hEr, -, hN, hoc⟩ := hv.exchange_owned ht hr
    obtain ⟨i, -, -, -, ho0, -⟩ := hF.peer htab fun h => hsr (h.trans hEr)
    obtain ⟨hlo, hhi⟩ := (hv.filled_ownedRange ht hr htab hF).1 c hc hl ho
    obtain ⟨k', -, hrun, hid⟩ := hv.globalId_sharedIn ht hr hc hl (ho.trans_ne hsr)
    refine ⟨(((System.exchange ms r).construct.getD c default).runid - s.ownedOffset).toNat,
      List.mem_range.mpr (by omega), ?_⟩
    rw [hid]
    exact congrArg (System.exchange ms r).nonlocalNodes (by omega)

/-- The entries of `nonlocal_nodes` at a peer record's owned range are increasing. -/
lemma rangeGlobals_sorted :
    ((List.range s.ownedCount.toNat).map (fun n => (System.exchange ms r).nonlocalNodes
        ((s.ownedOffset - (System.exchange ms r).ownedCount).toNat + n))).Sorted (· < ·) :=
  List.pairwise_map.mpr <| (List.pairwise_lt_range _).imp_of_mem fun _ hb hab => by
    obtain ⟨-, -, -, -, hlt, -⟩ := hv.rangeGlobals_pos ht hr htab hF hsr (List.mem_range.mp hb)
    exact hv.nonlocal_lt ht hr (Nat.add_lt_add_left hab _) hlt

end range

/-- **The record of a rank the process shares a node with.** It ends filled, and the final state
keeps the numbering of the exchange. -/
lemma final_record {r c q : Nat} (hr : r < P) (hs : (ms r).sharers = [])
    (hc : c < (ms r).construct.length) (hl : (ms r).isLocal c)
    (hq : q ∈ ((ms r).construct.getD c default).ranks) (hqr : q ≠ r) :
    ∃ s ∈ (System.final ms r).sharers, s.rank = q ∧
      ∃ k, FilledRecord (System.exchange ms r) k s ∧
        (System.final ms r).globalOffset = (System.exchange ms r).globalOffset ∧
        (System.final ms r).ownedCount = (System.exchange ms r).ownedCount ∧
        (System.final ms r).nonlocalNodes = (System.exchange ms r).nonlocalNodes := by
  have hp := hv.exchange_peers_ne_nil ht hr hc hl hq hqr
  obtain ⟨htab, -⟩ := hv.exchange_sharerTable ht hr hs hp
  obtain ⟨en, sh, e, hlen, hrec⟩ := hv.final_filled ht hr hs hp
  obtain ⟨s0, hs0, rfl⟩ := List.mem_map.mp ((htab.ranks q).mpr
    (.inr (hv.mem_exchange_peers ht hr hc hl hq hqr)))
  obtain ⟨k, hk, rfl⟩ := List.mem_iff_getElem.mp hs0
  rw [e]
  exact ⟨_, getD_mem (by rw [hlen]; exact hk), (hrec k hk).rank.trans
    (by rw [List.getD_eq_getElem _ _ hk]), k, hrec k hk, rfl, rfl, rfl⟩

end ConsistentViews

/-- **The sharer records pair up.** For processes whose traversal results are consistent views of
one mesh and that start without sharer records, take two processes `p ≠ q` that share a node.
After `p4est_tnodes_new`, `p` has a record for `q` and `q` one for `p`, and the entries of `p`'s
record that `shared_mine_offset` and `shared_mine_count` delimit, as global numbers, are in order
the entries of `nonlocal_nodes` of `q` for the local nodes that `owned_offset` and `owned_count`
of its record delimit. When `p > q` both lists are empty. -/
theorem final_sharers_agree {P : Nat} {ms : Nat → TnodesMeta} {gnode : Nat → Nat → Nat}
    (hv : ConsistentViews P ms gnode) (ht : ∀ r < P, Traversed (ms r)) {p q : Nat} (hp : p < P)
    (hq : q < P) (hpq : p ≠ q) (hs : ∀ r < P, (ms r).sharers = [])
    (hsh : ∃ c < (ms p).construct.length, (ms p).isLocal c ∧
      q ∈ ((ms p).construct.getD c default).ranks) :
    ∃ sp ∈ (System.final ms p).sharers, sp.rank = q ∧
      ∃ sq ∈ (System.final ms q).sharers, sq.rank = p ∧
        ((sp.sharedNodes.drop sp.sharedMineOffset.toNat).take sp.sharedMineCount.toNat).map
            (fun n => (((System.final ms p).globalOffset + n : Nat) : Int)) =
          (List.range sq.ownedCount.toNat).map (fun k => (System.final ms q).nonlocalNodes
            ((sq.ownedOffset - (System.final ms q).ownedCount).toNat + k)) ∧
        (q < p →
          ((sp.sharedNodes.drop sp.sharedMineOffset.toNat).take sp.sharedMineCount.toNat).map
            (fun n => (((System.final ms p).globalOffset + n : Nat) : Int)) = [] ∧
          (List.range sq.ownedCount.toNat).map (fun k => (System.final ms q).nonlocalNodes
            ((sq.ownedOffset - (System.final ms q).ownedCount).toNat + k)) = []) := by
  obtain ⟨c, hc, hl, hqc⟩ := hsh
  -- the other process's candidate of the node, with `p` among its contributors
  obtain ⟨e, he, heq⟩ := List.mem_map.mp hqc
  obtain ⟨-, c', hc', -, hl', hg⟩ := hv.slots p hp c hc hl e he
  rw [heq] at hc' hl' hg
  have hpc' : p ∈ ((ms q).construct.getD c' default).ranks :=
    hv.sameRanks p hp q hq c hc c' hc' hl hl' hg.symm _ (hv.rank_mem_ranks hp hl)
  obtain ⟨sp, hsp, hspr, kp, hFp, hGp, -, -⟩ :=
    hv.final_record ht hp (hs p hp) hc hl hqc (Ne.symm hpq)
  obtain ⟨sq, hsq, hsqr, kq, hFq, -, hOq, hNLq⟩ :=
    hv.final_record ht hq (hs q hq) hc' hl' hpc' hpq
  obtain ⟨htabp, -⟩ := hv.exchange_sharerTable ht hp (hs p hp)
    (hv.exchange_peers_ne_nil ht hp hc hl hqc (Ne.symm hpq))
  obtain ⟨htabq, -⟩ := hv.exchange_sharerTable ht hq (hs q hq)
    (hv.exchange_peers_ne_nil ht hq hc' hl' hpc' hpq)
  obtain ⟨-, hEp, hown, -⟩ := hv.exchange_owned ht hp
  refine ⟨sp, hsp, hspr, sq, hsq, hsqr, ?_⟩
  rw [hFp.mine_eq htabp (by rw [hEp, hspr]; exact Ne.symm hpq), hown, hspr, hGp, hOq, hNLq]
  have hsqr' : sq.rank ≠ q := by rw [hsqr]; exact hpq
  -- both lists are increasing, with the same members
  have hL : ((ownedSharedWith (System.exchange ms p) (ownedOrder (ms p)).enum q).map
      fun n => (((System.exchange ms p).globalOffset + n : Nat) : Int)).Sorted (· < ·) :=
    List.pairwise_map.mpr ((ownedSharedWith_sorted _ _ _).imp fun h => by omega)
  have hR := hv.rangeGlobals_sorted ht hq htabq hFq hsqr'
  have hLR := List.eq_of_perm_of_sorted ((List.perm_ext_iff_of_nodup hL.nodup hR.nodup).mpr
    fun x => by rw [hv.mem_ownedGlobals_iff ht hp, hv.sharedOwned_iff ht hp hq hpq,
      hv.mem_rangeGlobals_iff ht hq htabq hFq hsqr', hsqr]) hL hR
  refine ⟨hLR, fun hqp => ?_⟩
  -- a node `p` owns has no contributor below `p`
  have hL0 : ((ownedSharedWith (System.exchange ms p) (ownedOrder (ms p)).enum q).map
      fun n => (((System.exchange ms p).globalOffset + n : Nat) : Int)) = [] :=
    List.eq_nil_iff_forall_not_mem.mpr fun x hx => by
      obtain ⟨c, hc, ho, -, hqc, -⟩ := (hv.mem_ownedGlobals_iff ht hp x).mp hx
      have hle : (ms p).ownerRank c ≤ q := ((ht p hp).registered c hc).owner_le hqc
      omega
  exact ⟨hL0, hLR.symm.trans hL0⟩

/-- On the two-process run, process 0's record for process 1 and process 1's record for process 0
pair up. -/
theorem final_sharers_agree_twoRanks :
    ConsistentViews 2 twoRankViews twoRankNode ∧ (∀ r < 2, Traversed (twoRankViews r)) ∧
      0 < 2 ∧ 1 < 2 ∧ (0 : Nat) ≠ 1 ∧ (∀ r < 2, (twoRankViews r).sharers = []) ∧
      (∃ c < (twoRankViews 0).construct.length, (twoRankViews 0).isLocal c ∧
        1 ∈ ((twoRankViews 0).construct.getD c default).ranks) ∧
      ∃ sp ∈ (System.final twoRankViews 0).sharers, sp.rank = 1 ∧
        ∃ sq ∈ (System.final twoRankViews 1).sharers, sq.rank = 0 ∧
          ((sp.sharedNodes.drop sp.sharedMineOffset.toNat).take sp.sharedMineCount.toNat).map
              (fun n => (((System.final twoRankViews 0).globalOffset + n : Nat) : Int)) =
            (List.range sq.ownedCount.toNat).map (fun k => (System.final twoRankViews 1).nonlocalNodes
              ((sq.ownedOffset - (System.final twoRankViews 1).ownedCount).toNat + k)) ∧
          (1 < 0 →
            ((sp.sharedNodes.drop sp.sharedMineOffset.toNat).take sp.sharedMineCount.toNat).map
              (fun n => (((System.final twoRankViews 0).globalOffset + n : Nat) : Int)) = [] ∧
            (List.range sq.ownedCount.toNat).map (fun k => (System.final twoRankViews 1).nonlocalNodes
              ((sq.ownedOffset - (System.final twoRankViews 1).ownedCount).toNat + k)) = []) :=
  have hv : ConsistentViews 2 twoRankViews twoRankNode :=
    ⟨by decide, by decide, by decide, by decide, by decide⟩
  have ht : ∀ r < 2, Traversed (twoRankViews r) := by decide
  have hs : ∀ r < 2, (twoRankViews r).sharers = [] := by decide
  have hsh : ∃ c < (twoRankViews 0).construct.length, (twoRankViews 0).isLocal c ∧
      1 ∈ ((twoRankViews 0).construct.getD c default).ranks := by decide
  ⟨hv, ht, by decide, by decide, by decide, hs, hsh,
    final_sharers_agree hv ht (by decide) (by decide) (by decide) hs hsh⟩

end P4estTnodes
