import P4estTnodes.Agreement
import P4estTnodes.NetInvariant

/-!
# The exchange of all processes: matching, deadlock freedom and termination

The processes `r < P` start `wait_query_reply` from their states after `sort_peers`
(`Net.init`), for traversal results that are consistent views of one mesh. This file proves
what the query/reply protocol guarantees over every run of the transition system `Net.Step`,
whatever order the transport and `MPI_Waitsome` choose (`exchange_protocol`, whose conclusion
`ExchangeProtocol` collects):

* `ConsistentViews.bufcount_agree`: for every pair `lo < hi`, the count `hi` holds for its peer
  `lo` equals the count `lo` holds for `hi`, so each receive is matched by one send of its length
  and tag;
* deadlock freedom: in no reachable state are all processes blocked while one still waits, even
  for a transport that never buffers a send;
* termination: every run is finite, of at most `Net.measure` steps from the start;
* the end: a state where no step is possible has every peer in state `0`, every counter
  `nwtotal` at `0`, no message in transit, and one query and one reply sent per pair with
  messages.

The proof route. After `sort_peers` every process is `Posted` (`ConsistentViews.posted`), from
the closed form of the peer records (`Phase2At`); the counts of a pair agree because the
candidates that `hi` queries from `lo` and the candidates of `lo` that `hi` contributes to are
the same nodes (`queried_card`). The invariant of the network module then holds at the start and
in every reachable state, and gives the rest.
-/

namespace P4estTnodes

namespace ConsistentViews

variable {P : Nat} {ms : Nat → TnodesMeta} {gnode : Nat → Nat → Nat}
  (hv : ConsistentViews P ms gnode) (ht : ∀ r < P, Traversed (ms r))
include hv ht

/-! ## The peer records before the exchange -/

lemma phase2_mpirank {r : Nat} (hr : r < P) : (System.phase2 ms r).mpirank = r :=
  (ht r hr).phase2.keeps.mpirank.trans (hv.rank r hr).1

/-- A peer record is of another process, below `P`. -/
lemma phase2_rank {r j : Nat} (hr : r < P) (hj : j < (System.phase2 ms r).peers.length) :
    ((System.phase2 ms r).peers.getD j default).rank ≠ r ∧
      ((System.phase2 ms r).peers.getD j default).rank < P := by
  obtain ⟨c, hc, hl, hq, hne⟩ := ((ht r hr).phase2.ranks.2 _).mp
    (List.mem_map_of_mem (·.rank) (List.getD_eq_getElem _ default hj ▸ List.getElem_mem hj))
  obtain ⟨e, he, her⟩ := List.mem_map.mp hq
  exact ⟨fun h => hne (h.trans (hv.rank r hr).1.symm), her ▸ (hv.slots r hr c hc hl e he).1⟩

omit hv in
/-- The count a process holds for rank `q` is the count of the closed form of
`owned_query_reply`, also when it has no record for `q`.
Source: `owned_query_reply` (part_000 ll. 729–823), `peer_access` (ll. 207–224)
Kind: L -/
lemma peerOf_bufcount {r : Nat} (hr : r < P) (q : Nat) :
    ((System.phase2 ms r).peerOf q).bufcount =
      (peerBelow (ms r) (ms r).construct.length q).bufcount := by
  have h2 := (ht r hr).phase2
  rw [peerOf_eq_getD_idx]
  by_cases hlt : (System.phase2 ms r).idx q < (System.phase2 ms r).peers.length
  · obtain ⟨s, hs⟩ := h2.peer _ hlt
    rw [hs, rank_idx hlt]
    simp
  · have hnp : ¬ PeerBelow (ms r) (ms r).construct.length q := fun hp => hlt (by
      simpa [TnodesMeta.idx] using List.indexOf_lt_length.mpr ((h2.ranks.2 q).mpr hp))
    rw [List.getD_eq_default _ _ (not_lt.mp hlt),
      peerBelow_new (fun c hc => (ht r hr).registered c hc) hnp]
    rfl

/-- **The queried candidates are the replied ones.** The candidates of `hi` that `lo` owns and
the candidates `lo` owns with `hi` among their contributors are the same nodes, so there are as
many of them.
Source: `owned_query_reply` (part_000 ll. 769–812), with the hypothesis of the global numbering
Kind: L -/
lemma queried_card {lo hi : Nat} (hlo : lo < hi) (hhi : hi < P) :
    (queriedBelow (ms hi) (ms hi).construct.length lo).length =
      repliesBelow (ms lo) (ms lo).construct.length hi := by
  have hlP : lo < P := hlo.trans hhi
  have hmh := (hv.rank hi hhi).1
  have hml := (hv.rank lo hlP).1
  set A := queriedBelow (ms hi) (ms hi).construct.length lo
  set B := (List.range (ms lo).construct.length).filter fun c =>
    (ms lo).ownerRank c = (ms lo).mpirank ∧ hi ∈ ((ms lo).construct.getD c default).ranks ∧
      hi ≠ (ms lo).mpirank
  have memA : ∀ c, c ∈ A ↔ c < (ms hi).construct.length ∧ (ms hi).isLocal c ∧
      (ms hi).ownerRank c = lo := fun c => by
    simp only [A, queriedBelow, List.mem_filter, List.mem_range, decide_eq_true_eq, hmh]
    exact ⟨fun ⟨h1, h2, _, h4⟩ => ⟨h1, h2, h4⟩, fun ⟨h1, h2, h4⟩ => ⟨h1, h2, by omega, h4⟩⟩
  have memB : ∀ c, c ∈ B ↔ c < (ms lo).construct.length ∧ (ms lo).ownerRank c = lo ∧
      hi ∈ ((ms lo).construct.getD c default).ranks := fun c => by
    simp only [B, List.mem_filter, List.mem_range, decide_eq_true_eq, hml]
    exact ⟨fun ⟨h1, h2, h3, _⟩ => ⟨h1, h2, h3⟩, fun ⟨h1, h2, h3⟩ => ⟨h1, h2, h3, by omega⟩⟩
  have hlB : ∀ c ∈ B, (ms lo).isLocal c := fun c hc => by
    obtain ⟨h1, h2, -⟩ := (memB c).mp hc
    exact TnodesMeta.isLocal_of_owned ((ht lo hlP).registered c h1) (h2.trans hml.symm)
  have himg : A.toFinset.image (gnode hi) = B.toFinset.image (gnode lo) := by
    ext n
    simp only [Finset.mem_image, List.mem_toFinset]
    constructor
    · rintro ⟨c, hc, rfl⟩
      obtain ⟨h1, h2, h3⟩ := (memA c).mp hc
      obtain ⟨-, c', hc', hl', hg, ho', -⟩ := hv.owner_slot ht hhi h1 h2 h3
      have hin := hv.sameRanks hi hhi lo hlP c h1 c' hc' h2 hl' hg.symm hi
        (by have := h2; rwa [TnodesMeta.isLocal, hmh] at this)
      exact ⟨c', (memB c').mpr ⟨hc', ho', hin⟩, hg⟩
    · rintro ⟨c', hc', rfl⟩
      obtain ⟨h1, h2, h3⟩ := (memB c').mp hc'
      obtain ⟨e, he, rfl⟩ := List.mem_map.mp h3
      obtain ⟨-, c, hc, -, hl, hg⟩ := hv.slots lo hlP c' h1 (hlB c' hc') e he
      have ho := hv.ownerRank_eq ht hhi hlP hc h1 hl (hlB c' hc') hg
      exact ⟨c, (memA c).mpr ⟨hc, hl, ho.trans h2⟩, hg⟩
  calc A.length = A.toFinset.card :=
        (List.toFinset_card_of_nodup ((List.nodup_range _).filter _)).symm
    _ = (A.toFinset.image (gnode hi)).card := (Finset.card_image_of_injOn fun a ha b hb hab =>
        hv.unique hi hhi a ((memA a).mp (List.mem_toFinset.mp ha)).1 b
          ((memA b).mp (List.mem_toFinset.mp hb)).1 ((memA a).mp (List.mem_toFinset.mp ha)).2.1
          ((memA b).mp (List.mem_toFinset.mp hb)).2.1 hab).symm
    _ = (B.toFinset.image (gnode lo)).card := by rw [himg]
    _ = B.toFinset.card := Finset.card_image_of_injOn fun a ha b hb hab =>
        hv.unique lo hlP a ((memB a).mp (List.mem_toFinset.mp ha)).1 b
          ((memB b).mp (List.mem_toFinset.mp hb)).1 (hlB a (List.mem_toFinset.mp ha))
          (hlB b (List.mem_toFinset.mp hb)) hab
    _ = B.length := List.toFinset_card_of_nodup ((List.nodup_range _).filter _)

/-- **The counts of a pair agree**: the count the higher process `hi` holds for `lo` (its
queries) is the count `lo` holds for `hi` (its replies).
Source: `owned_query_reply` (part_000 ll. 769–812), `post_query_reply` (ll. 1007–1031)
Kind: L -/
lemma bufcount_agree {lo hi : Nat} (hlo : lo < hi) (hhi : hi < P) :
    ((System.phase2 ms hi).peerOf lo).bufcount = ((System.phase2 ms lo).peerOf hi).bufcount := by
  have hlP : lo < P := hlo.trans hhi
  rw [peerOf_bufcount ht hhi, peerOf_bufcount ht hlP]
  simp only [peerBelow]
  rw [(ht hi hhi).repliesBelow_lower (by rw [(hv.rank hi hhi).1]; exact hlo),
    (ht lo hlP).queriedBelow_of_le (by rw [(hv.rank lo hlP).1]; exact hlo.le), Nat.zero_add,
    List.length_nil, Nat.add_zero, hv.queried_card ht hlo hhi]

/-- After `sort_peers`, every process has posted its requests, with the counts of its peer
records.
Source: `post_query_reply` (part_000 ll. 979–1034), `sort_peers` (ll. 922–977)
Kind: L -/
lemma posted {r : Nat} (hr : r < P) :
    Posted P r (fun r q => ((System.phase2 ms r).peerOf q).bufcount) (System.phase2 ms r) := by
  have h2 := (ht r hr).phase2
  have hmr := (hv.rank r hr).1
  have hpe : (System.phase2 ms r).pereq =
      (System.phase2 ms r).peers.map (postedReq (ms r).mpirank) ∧
      (System.phase2 ms r).emptypeers =
        ((System.phase2 ms r).peers.filter (·.bufcount = 0)).length :=
    (ht r hr).phase2_pereq _
  rw [hmr] at hpe
  refine ⟨⟨hv.phase2_mpirank ht hr, h2.ranks.1, fun j hj => hv.phase2_rank ht hr hj,
    by rw [hpe.1, List.length_map], fun j hj => h2.querypos_length (ht r hr) hj⟩, fun _ => rfl,
    h2.keeps.ghost ▸ (ht r hr).ghost, hpe.1, hpe.2, fun j hj => ?_⟩
  rw [h2.done hj, hmr]

end ConsistentViews

/-! ## Every run of the exchange -/

/-- **What the exchange of `p4est_tnodes_new` guarantees** on the processes `r < P` started from
the traversal results `ms`, over every run of `Net.Step`.
Source: `post_query_reply` (part_000 ll. 979–1034), `wait_query_reply` (ll. 1036–1177)
Kind: D -/
structure ExchangeProtocol (P : Nat) (ms : Nat → TnodesMeta) : Prop where
  /-- The count `hi` holds for a lower peer `lo` is the count `lo` holds for `hi`. -/
  agree : ∀ lo hi, lo < hi → hi < P →
    ((System.phase2 ms hi).peerOf lo).bufcount = ((System.phase2 ms lo).peerOf hi).bufcount
  /-- Every message sent goes between two processes, a query down and a reply up, is the only
  one of its source, destination and tag, and is as long as the count its receiver holds for its
  sender. -/
  matched : ∀ s, Net.Reachable P (Net.init P ms) s → ∀ m ∈ s.sent,
    m.src < P ∧ m.dst < P ∧ (m.tag = .query ↔ m.dst < m.src) ∧
      countMsg s.sent m.src m.dst m.tag = 1 ∧
      m.buf.length = ((System.phase2 ms m.dst).peerOf m.src).bufcount
  /-- While a process still waits, a step of a transport that never buffers is enabled. -/
  deadlockFree : ∀ s, Net.Reachable P (Net.init P ms) s → ∀ r < P, 0 < s.nwtotal r →
    ∃ s', Net.SyncStep P s s'
  /-- Every run from the start has at most `measure` steps. -/
  terminates : ∀ n s, Net.Run P (Net.init P ms) n s → n ≤ (Net.init P ms).measure P
  /-- A reachable state where no step is enabled has every counter at `0`, every peer in
  state `0`, no message in transit, and one query and one reply per pair with messages. -/
  final : ∀ s, Net.Reachable P (Net.init P ms) s → (∀ s', ¬ Net.SyncStep P s s') →
    (∀ r < P, s.nwtotal r = 0 ∧ ∀ j < (s.procs r).peers.length,
      ((s.procs r).peers.getD j default).done = 0) ∧
    s.transit = [] ∧
    ∀ lo hi, lo < hi → hi < P →
      countMsg s.sent hi lo .query = (if ((System.phase2 ms hi).peerOf lo).bufcount = 0 then 0 else 1) ∧
      countMsg s.sent lo hi .reply = (if ((System.phase2 ms hi).peerOf lo).bufcount = 0 then 0 else 1)

/-- **The exchange is matched, free of deadlock and terminates** for traversal results that
are consistent views of one mesh, over every order in which the transport completes requests and
`MPI_Waitsome` reports any nonempty set of them. -/
theorem exchange_protocol {P : Nat} {ms : Nat → TnodesMeta} {gnode : Nat → Nat → Nat}
    (hv : ConsistentViews P ms gnode) (ht : ∀ r < P, Traversed (ms r)) : ExchangeProtocol P ms := by
  have hB : ∀ lo hi, lo < hi → hi < P → ((System.phase2 ms hi).peerOf lo).bufcount =
      ((System.phase2 ms lo).peerOf hi).bufcount := fun lo hi hlo hhi => hv.bufcount_agree ht hlo hhi
  have h0 := netInv_start (fun r hr => hv.posted ht hr) hB
  have hreach := fun s (h : Net.Reachable P (Net.init P ms) s) => h0.reachable hB h
  refine ⟨hB, fun s hs m hm => ?_, fun s hs r hr hw => (hreach s hs).syncStep_of_waiting hr hw,
    fun n s h => h0.run_le_measure hB h, fun s hs hst => ?_⟩
  · obtain ⟨hsrc, hdst, hshape, -⟩ := (hreach s hs).sent m hm
    obtain ⟨h1, h2⟩ := (hreach s hs).sent_once hm
    refine ⟨hsrc, hdst, ?_, h1, h2⟩
    rcases hshape with ⟨htag, hlt⟩ | ⟨htag, hlt⟩
    · exact ⟨fun _ => hlt, fun _ => htag⟩
    · rw [htag]; exact ⟨fun h => Tag.noConfusion h, fun h => absurd h (not_lt.mpr hlt.le)⟩
  · obtain ⟨h1, h2, h3⟩ := (hreach s hs).final hst
    exact ⟨fun r hr => ⟨(h1 r hr).1, fun j hj => ((h1 r hr).2 j hj).1⟩, h2, h3⟩

/-- The views of the two-process run are consistent and traversed. -/
lemma twoRankViews_ready :
    ConsistentViews 2 twoRankViews twoRankNode ∧ ∀ r < 2, Traversed (twoRankViews r) :=
  ⟨⟨by decide, by decide, by decide, by decide, by decide⟩, by decide⟩

/-- The two-process run of `twoRankViews` exchanges its messages without deadlock. -/
theorem exchange_protocol_twoRanks :
    ConsistentViews 2 twoRankViews twoRankNode ∧ (∀ r < 2, Traversed (twoRankViews r)) ∧
      ExchangeProtocol 2 twoRankViews :=
  ⟨twoRankViews_ready.1, twoRankViews_ready.2,
    exchange_protocol twoRankViews_ready.1 twoRankViews_ready.2⟩

end P4estTnodes
