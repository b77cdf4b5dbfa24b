import P4estTnodes.Phases
import P4estTnodes.Exchange
import P4estTnodes.Numbering

/-!
# The global numbering: agreement of all processes

The processes `r < P` run `p4est_tnodes_new` on traversal results `ms r` that are consistent
views of one mesh (`ConsistentViews`) and that the traversal left with registered candidates
(`Traversed`). This file proves what the numbering is for (`GlobalNumbering`):

* `exchange_globalNumbering`: every node is owned by its smallest contributor rank on every
  process; every contributing process derives the same global number for it, the owner's offset
  plus the position of the owner's candidate in the owner's sorted owned list; and the global
  numbers are a bijection from the nodes onto `[0, goffset[P])`, each process owning its range.

The proof route. Owners agree because contributing processes record the same contributor ranks
and the owner is the smallest (`ownerRank_eq`). The query entry of a shared-in candidate is the
owner slot, which holds the owner's own candidate of the node (`owner_slot`), so the owner's
reply is the position of that candidate in its sorted owned list (`translateEntry_eposOf`);
distinct queried candidates get distinct replies (`translateEntry_inj`). With the blocks of
`sort_peers` this makes every process ready to receive (`receiveReady`), and the exchange module
then gives every candidate its number and global number (`exchange_runid_owned`,
`exchange_sharedIn`, `globalId_exchange`). The counting facts come from the prefix sums of the
gathered counts (`prefixSum_add_inj`, `exists_prefixSum_block`).
-/

namespace P4estTnodes

/-- The global number of candidate `c` of a process: its local number `n` (its `runid` after the
exchange) is an owned node below `owned_count`, with global number `global_offset + n`, and a
shared-in node above, whose global number is `nonlocal_nodes[n - owned_count]`.
Source: the output `p4est_lnodes_t` as `sort_allgather` (part_000 ll. 853–859) and
`wait_query_reply` (ll. 1151–1159) fill it; spec §4.6
Kind: D -/
def TnodesMeta.globalId (m : TnodesMeta) (c : Nat) : Int :=
  let n := (m.construct.getD c default).runid
  if n < m.ownedCount then m.globalOffset + n else m.nonlocalNodes (n - m.ownedCount).toNat

/-- A reply that translates every query entry gives each queried candidate the translation of
its own entry.
Source: `wait_query_reply` (part_000 ll. 1131–1139)
Kind: L -/
lemma replyValue_map {cs : List Nat} (f : Nat → Int) {c : Nat} (hc : c ∈ cs) :
    replyValue cs (cs.map f) c = f c := by
  have hlt := List.indexOf_lt_length.mpr hc
  rw [replyValue, List.getD_eq_getElem _ _ (by simpa using hlt), List.getElem_map,
    List.getElem_indexOf]


namespace ConsistentViews

variable {P : Nat} {ms : Nat → TnodesMeta} {gnode : Nat → Nat → Nat}
  (hv : ConsistentViews P ms gnode) (ht : ∀ r < P, Traversed (ms r))
include hv ht

/-! ## The owner of a node -/

/-- **Owners agree.** Two processes with a local contributor to one node register the same
owner rank for it.
Source: `node_register` (the owner rescan), with the hypothesis of the global numbering
Kind: L -/
lemma ownerRank_eq {r r' c c' : Nat} (hr : r < P) (hr' : r' < P)
    (hc : c < (ms r).construct.length) (hc' : c' < (ms r').construct.length)
    (hl : (ms r).isLocal c) (hl' : (ms r').isLocal c') (hg : gnode r c = gnode r' c') :
    (ms r).ownerRank c = (ms r').ownerRank c' := by
  have h1 := (ht r hr).registered c hc
  have h2 := (ht r' hr').registered c' hc'
  apply le_antisymm
  · exact h1.owner_le (hv.sameRanks r' hr' r hr c' hc' c hc hl' hl hg.symm _ h2.owner_mem_ranks)
  · exact h2.owner_le (hv.sameRanks r hr r' hr' c hc c' hc' hl hl' hg _ h1.owner_mem_ranks)

/-- **The owner's candidate.** The owner slot of a candidate with a local contributor holds,
on the owner, the owner's own candidate of the same node.
Source: `owned_query_reply` (part_000 l. 808), with the hypothesis of the global numbering
Kind: L -/
lemma owner_slot {r c o : Nat} (hr : r < P) (hc : c < (ms r).construct.length)
    (hl : (ms r).isLocal c) (ho : (ms r).ownerRank c = o) :
    o < P ∧ ∃ c' < (ms o).construct.length, (ms o).isLocal c' ∧ gnode o c' = gnode r c ∧
      (ms o).ownerRank c' = o ∧ (ms o).elementNodes ((ms r).eposOf c).toNat = c' := by
  have hreg := (ht r hr).registered c hc
  obtain ⟨hP, c', hc', hen, hl', hg⟩ := hv.slots r hr c hc hl _ hreg.ownerContr_mem
  have ho' : ((ms r).construct.getD c default).ownerContr.rank = o := ho
  rw [ho'] at hP hc' hen hl' hg
  have hvn : (ms r).vnodes = (ms o).vnodes := by
    simp only [TnodesMeta.vnodes, (hv.layout r hr), (hv.layout o hP)]
  refine ⟨hP, c', hc', hl', hg, ?_, ?_⟩
  · exact (hv.ownerRank_eq ht hP hr hc' hc hl' hl hg).trans ho
  · rw [← hen]
    congr 1
    unfold TnodesMeta.eposOf
    rw [hvn]
    omega

/-! ## The replies -/

/-- **The owner translates the query entry** of a candidate into the position of its own
candidate of the node in its sorted owned list.
Source: `wait_query_reply` (part_000 ll. 1081–1104)
Kind: L -/
lemma translateEntry_eposOf {r c o : Nat} (hr : r < P) (hc : c < (ms r).construct.length)
    (hl : (ms r).isLocal c) (ho : (ms r).ownerRank c = o) :
    o < P ∧ ∃ c' < (ms o).construct.length, (ms o).isLocal c' ∧ gnode o c' = gnode r c ∧
      (ms o).ownerRank c' = o ∧
      translateEntry (System.phase2 ms o) ((ms r).eposOf c) = (ownedOrder (ms o)).indexOf c' := by
  obtain ⟨hP, c', hc', hl', hg, ho', hen⟩ := hv.owner_slot ht hr hc hl ho
  have h2 := (ht o hP).phase2
  refine ⟨hP, c', hc', hl', hg, ho', ?_⟩
  unfold translateEntry
  rw [h2.keeps.elementNodes, hen, Int.toNat_natCast,
    h2.runid c' hc' (ho'.trans (hv.rank o hP).1.symm)]

omit ht in
/-- The sorted owned list of process `o` holds exactly its owned candidates.
Source: `owned_query_reply` (part_000 ll. 762–766), `sort_allgather` (ll. 832–836)
Kind: L -/
lemma mem_ownedOrder {o c : Nat} (ho : o < P) :
    c ∈ ownedOrder (ms o) ↔ c < (ms o).construct.length ∧ (ms o).ownerRank c = o := by
  rw [ownedOrder, (List.perm_insertionSort _ _).mem_iff, ownedBelow, List.mem_filter,
    List.mem_range, decide_eq_true_eq, (hv.rank o ho).1]

/-- The reply process `q` sends to a higher process `r`: the owner's positions of the
candidates `r` queried from it.
Source: `wait_query_reply` (part_000 ll. 1081–1108)
Kind: L -/
lemma reply_eq {r q : Nat} (hr : r < P) (hq : q < r) :
    System.reply ms q r = (queriedBelow (ms r) (ms r).construct.length q).map
      fun c => translateEntry (System.phase2 ms q) ((ms r).eposOf c) := by
  rw [System.reply, System.query, System.phase1,
    (ht r hr).peerOf_querypos (by rw [(hv.rank r hr).1]; exact hq), List.map_map]
  rfl

/-- The replies of one owner are pairwise distinct on the candidates queried from it: distinct
candidates with a local contributor are distinct nodes, with distinct owner's candidates.
Source: `wait_query_reply` (part_000 ll. 1131–1141), with the hypothesis of the global numbering
Kind: L -/
lemma translateEntry_inj {r q a b : Nat} (hr : r < P)
    (ha : a ∈ queriedBelow (ms r) (ms r).construct.length q)
    (hb : b ∈ queriedBelow (ms r) (ms r).construct.length q)
    (hab : translateEntry (System.phase2 ms q) ((ms r).eposOf a) =
      translateEntry (System.phase2 ms q) ((ms r).eposOf b)) : a = b := by
  simp only [queriedBelow, List.mem_filter, List.mem_range, decide_eq_true_eq] at ha hb
  obtain ⟨hP, a', ha', -, hga, hoa, hta⟩ := hv.translateEntry_eposOf ht hr ha.1 ha.2.1 ha.2.2.2
  obtain ⟨-, b', hb', -, hgb, hob, htb⟩ := hv.translateEntry_eposOf ht hr hb.1 hb.2.1 hb.2.2.2
  rw [hta, htb, Int.natCast_inj, List.indexOf_inj ((hv.mem_ownedOrder hP).mpr ⟨ha', hoa⟩)
    ((hv.mem_ownedOrder hP).mpr ⟨hb', hob⟩)] at hab
  subst hab
  exact hv.unique r hr a ha.1 b hb.1 ha.2.1 hb.2.1 (hga.symm.trans hgb)

/-! ## Every process can receive its replies -/

/-- **Every process can receive its replies.** On each process, the peers awaiting a reply
have well-formed, pairwise distinct replies, disjoint queried candidates and disjoint blocks.
Source: `wait_query_reply` (part_000 ll. 1115–1167), with the hypothesis of the global numbering
Kind: L -/
lemma receiveReady {r : Nat} (hr : r < P) :
    ReceiveReady ms r (System.phase2 ms r) (System.phase2 ms r).sortp := by
  have h2 := (ht r hr).phase2
  have hmr : (ms r).mpirank = r := (hv.rank r hr).1
  refine ⟨h2.sortp.1, fun j hj ha => ?_, fun j hj j' hj' hne ha ha' d hd hd' => ?_,
    fun j hj j' hj' hne ha ha' => ?_⟩
  · have hjl := (h2.sortp.2 j).mp hj
    have hq : ((System.phase2 ms r).peers.getD j default).rank < (ms r).mpirank := by
      rw [hmr]; exact ha.2
    have hsq := setQuerypos_getD (System.phase2 ms r) j (replyFor ms r (System.phase2 ms r) j) j
    rw [if_pos ⟨rfl, hjl⟩] at hsq
    have hrep := hv.reply_eq ht hr ha.2
    have hbc := h2.bufcount hjl
    rw [(ht r hr).repliesBelow_lower hq, Nat.zero_add] at hbc
    refine ⟨by simpa using hjl, ?_, ?_, ?_, ?_, ?_, ?_⟩ <;> rw [hsq] <;> dsimp only
    · rw [h2.sharedno hjl]; exact (List.nodup_range _).filter _
    · rw [h2.sharedno hjl, setQuerypos_construct, h2.keeps.length]
      exact fun c hc => List.mem_range.mp (List.mem_filter.mp hc).1
    · rw [h2.remosort hjl, h2.sharedno hjl]
    · rw [h2.sharedno hjl, hbc]
    · rw [replyFor, hrep, List.length_map, hbc]
    · rw [replyFor, hrep, h2.sharedno hjl]
      intro a ha b hb hab
      rw [replyValue_map _ ha, replyValue_map _ hb] at hab
      exact hv.translateEntry_inj ht hr ha hb hab
  · have hjl := (h2.sortp.2 j).mp hj
    have hjl' := (h2.sortp.2 j').mp hj'
    rw [h2.sharedno hjl] at hd
    rw [h2.sharedno hjl'] at hd'
    simp only [queriedBelow, List.mem_filter, decide_eq_true_eq] at hd hd'
    exact h2.rank_ne hjl hjl' hne (hd.2.2.2.symm.trans hd'.2.2.2)
  · have hjl := (h2.sortp.2 j).mp hj
    have hjl' := (h2.sortp.2 j').mp hj'
    have hmem : ∀ i < (System.phase2 ms r).peers.length,
        (System.phase2 ms r).peers.getD i default ∈ (System.phase2 ms r).peers := fun i hi =>
      List.getD_eq_getElem _ _ hi ▸ List.getElem_mem hi
    rw [h2.shacumul hjl, h2.shacumul hjl', hmr]
    rcases Nat.lt_or_gt_of_ne (h2.rank_ne hjl hjl' hne) with hlt | hlt
    · exact .inl (shacumulOf_add_le (hmem j hjl) h2.ranks.1 hlt ha.2)
    · exact .inr (shacumulOf_add_le (hmem j' hjl') h2.ranks.1 hlt ha'.2)

/-! ## The numbers after the exchange -/

/-- A shared-in candidate of process `r` is queried from the peer of its owner, a lower rank
awaiting a reply.
Source: `owned_query_reply` (part_000 ll. 781–815), `sort_peers` (ll. 922–977)
Kind: L -/
lemma peer_of_sharedIn {r c : Nat} (hr : r < P) (hc : c < (ms r).construct.length)
    (hl : (ms r).isLocal c) (ho : (ms r).ownerRank c ≠ r) :
    (ms r).ownerRank c < r ∧ ∃ j ∈ (System.phase2 ms r).sortp,
      j < (System.phase2 ms r).peers.length ∧
      ((System.phase2 ms r).peers.getD j default).rank = (ms r).ownerRank c ∧
      AwaitsReply r (System.phase2 ms r) j ∧
      c ∈ ((System.phase2 ms r).peers.getD j default).sharedno := by
  have h2 := (ht r hr).phase2
  have hmr : (ms r).mpirank = r := (hv.rank r hr).1
  obtain ⟨hlt, hpb, hq⟩ := (ht r hr).sharedIn hc hl fun h => ho (h.trans hmr)
  replace hlt := lt_of_lt_of_eq hlt hmr
  obtain ⟨p, hp, hpr⟩ := List.mem_map.mp ((h2.ranks.2 _).mpr hpb)
  obtain ⟨j, hj, rfl⟩ := List.mem_iff_getElem.mp hp
  have hjr : ((System.phase2 ms r).peers.getD j default).rank = (ms r).ownerRank c := by
    rw [List.getD_eq_getElem _ _ hj, hpr]
  have hc' : c ∈ ((System.phase2 ms r).peers.getD j default).sharedno := by
    rw [h2.sharedno hj, hjr]; exact hq
  refine ⟨hlt, j, (h2.sortp.2 j).mpr hj, hj, hjr, ⟨?_, hjr ▸ hlt⟩, hc'⟩
  rw [h2.bufcount hj]
  exact Nat.pos_iff_ne_zero.mp (Nat.add_pos_right _ (List.length_pos_of_mem (h2.sharedno hj ▸ hc')))

/-- **An owned candidate keeps its number in the exchange**: its position in the sorted owned
list.
Source: `sort_allgather` (part_000 ll. 832–841), `wait_query_reply` (ll. 1115–1167)
Kind: L -/
lemma exchange_runid_owned {r c : Nat} (hr : r < P) (hc : c < (ms r).construct.length)
    (ho : (ms r).ownerRank c = r) :
    ((System.exchange ms r).construct.getD c default).runid = (ownedOrder (ms r)).indexOf c := by
  have h2 := (ht r hr).phase2
  have hmr : (ms r).mpirank = r := (hv.rank r hr).1
  rw [(exchange_received ms r (hv.receiveReady ht hr)).runid_rest c fun j hj _ hcj => ?_,
    h2.runid c hc (ho.trans hmr.symm)]
  rw [h2.sharedno ((h2.sortp.2 j).mp hj)] at hcj
  exact (List.mem_filter.mp hcj).2 |> of_decide_eq_true |>.2.1 (ho.trans hmr.symm)

/-- **A shared-in candidate after the exchange.** Its number is `num_owned` plus the offset of
its owner's block plus its position by the owner's number, and the global number stored at that
position of `nonlocal_nodes` is the owner's offset plus the owner's number.
Source: `wait_query_reply` (part_000 ll. 1127–1165)
Kind: L -/
lemma exchange_sharedIn {r c : Nat} (hr : r < P) (hc : c < (ms r).construct.length)
    (hl : (ms r).isLocal c) (ho : (ms r).ownerRank c ≠ r) :
    ∃ j < (System.phase2 ms r).peers.length,
      ((System.phase2 ms r).peers.getD j default).rank = (ms r).ownerRank c ∧
      ((System.exchange ms r).construct.getD c default).runid =
        (((System.phase2 ms r).numOwned + ((System.phase2 ms r).peers.getD j default).shacumul +
          replyPos ((System.phase2 ms r).peers.getD j default).sharedno
            (replyFor ms r (System.phase2 ms r) j) c : Nat) : Int) ∧
      (System.exchange ms r).nonlocalNodes (((System.phase2 ms r).peers.getD j default).shacumul +
          replyPos ((System.phase2 ms r).peers.getD j default).sharedno
            (replyFor ms r (System.phase2 ms r) j) c) =
        prefixSum (System.counts ms) ((ms r).ownerRank c) +
          translateEntry (System.phase2 ms ((ms r).ownerRank c)) ((ms r).eposOf c) := by
  have h2 := (ht r hr).phase2
  have hR := exchange_received ms r (hv.receiveReady ht hr)
  obtain ⟨hlt, j, hj, hjl, hjr, ha, hcj⟩ := hv.peer_of_sharedIn ht hr hc hl ho
  refine ⟨j, hjl, hjr, hR.runid j hj ha c hcj, ?_⟩
  rw [hR.nonlocal j hj ha c hcj, h2.goffset, hjr, replyFor, hjr, hv.reply_eq ht hr hlt,
    ← hjr, ← h2.sharedno hjl, replyValue_map _ hcj, hjr]

/-- The exchange changes the candidates, `nonlocal_nodes` and the peer records only.
Source: `wait_query_reply` (part_000 ll. 1036–1177)
Kind: L -/
lemma exchange_eq {r : Nat} (hr : r < P) : ∃ cs nl ps, System.exchange ms r =
    { System.phase2 ms r with construct := cs, nonlocalNodes := nl, peers := ps } :=
  (exchange_received ms r (hv.receiveReady ht hr)).frame

/-- **The global number of every candidate with a local contributor** is the owner's offset
plus the position of the owner's candidate of the node in the owner's sorted owned list.
Source: `sort_allgather` (part_000 ll. 825–860), `wait_query_reply` (ll. 1036–1177)
Kind: L -/
lemma globalId_exchange {r c o : Nat} (hr : r < P) (hc : c < (ms r).construct.length)
    (hl : (ms r).isLocal c) (ho : (ms r).ownerRank c = o) :
    ∃ c' < (ms o).construct.length, (ms o).isLocal c' ∧ gnode o c' = gnode r c ∧
      (ms o).ownerRank c' = o ∧
      (System.exchange ms r).globalId c =
        prefixSum (System.counts ms) o + (ownedOrder (ms o)).indexOf c' := by
  have h2 := (ht r hr).phase2
  have hmr : (ms r).mpirank = r := (hv.rank r hr).1
  obtain ⟨cs, nl, ps, e⟩ := hv.exchange_eq ht hr
  have hoc : (System.exchange ms r).ownedCount = (ownedBelow (ms r) (ms r).construct.length).length := by
    rw [e]; exact h2.ownedCount
  have hgo : (System.exchange ms r).globalOffset = prefixSum (System.counts ms) r := by
    rw [e]; exact h2.globalOffset.trans (by rw [hmr])
  unfold TnodesMeta.globalId
  dsimp only
  by_cases hor : o = r
  · subst hor
    have hlt : (ownedOrder (ms o)).indexOf c < (ownedBelow (ms o) (ms o).construct.length).length := by
      rw [← length_ownedOrder]
      exact List.indexOf_lt_length.mpr ((hv.mem_ownedOrder hr).mpr ⟨hc, ho⟩)
    refine ⟨c, hc, hl, rfl, ho, ?_⟩
    rw [hv.exchange_runid_owned ht hr hc ho, hoc, if_pos (by exact_mod_cast hlt), hgo]
  · obtain ⟨j, -, hjr, hrun, hnl⟩ := hv.exchange_sharedIn ht hr hc hl fun h => hor (ho.symm.trans h)
    obtain ⟨-, c', hc', hl', hg, ho', htr⟩ := hv.translateEntry_eposOf ht hr hc hl ho
    refine ⟨c', hc', hl', hg, ho', ?_⟩
    rw [ho, htr] at hnl
    rw [hrun, hoc, ← h2.numOwned, if_neg (by omega), ← hnl]
    congr 1
    omega

/-- **Agreement.** Every process that contributes to a node derives the same global number.
Source: spec §1 (the global id of a node is identical on every rank that can see it)
Kind: L -/
lemma globalId_agree {r r' c c' : Nat} (hr : r < P) (hr' : r' < P)
    (hc : c < (ms r).construct.length) (hc' : c' < (ms r').construct.length)
    (hl : (ms r).isLocal c) (hl' : (ms r').isLocal c') (hg : gnode r c = gnode r' c') :
    (System.exchange ms r).globalId c = (System.exchange ms r').globalId c' := by
  have hoo := hv.ownerRank_eq ht hr hr' hc hc' hl hl' hg
  obtain ⟨a, ha, hla, hga, -, e⟩ := hv.globalId_exchange ht hr hc hl rfl
  obtain ⟨b, hb, hlb, hgb, -, e'⟩ := hv.globalId_exchange ht hr' hc' hl' hoo.symm
  obtain ⟨hP, -⟩ := hv.owner_slot ht hr hc hl rfl
  rw [e, e', hv.unique _ hP a ha b hb hla hlb (hga.trans (hg.trans hgb.symm))]

/-- The position of the owner's candidate lies within the owner's count.
Source: `sort_allgather` (part_000 ll. 838–851)
Kind: L -/
lemma indexOf_lt_counts {o c' : Nat} (ho : o < P) (hc' : c' < (ms o).construct.length)
    (ho' : (ms o).ownerRank c' = o) : (ownedOrder (ms o)).indexOf c' < System.counts ms o := by
  rw [counts_eq_length (ht o ho)]
  exact List.indexOf_lt_length.mpr ((hv.mem_ownedOrder ho).mpr ⟨hc', ho'⟩)

/-- **The global numbers are in range**: below the sum of all owned counts.
Source: `sort_allgather` (part_000 ll. 852–858)
Kind: L -/
lemma globalId_lt {r c : Nat} (hr : r < P) (hc : c < (ms r).construct.length)
    (hl : (ms r).isLocal c) :
    0 ≤ (System.exchange ms r).globalId c ∧
      (System.exchange ms r).globalId c < prefixSum (System.counts ms) P := by
  obtain ⟨c', hc', -, -, ho', e⟩ := hv.globalId_exchange ht hr hc hl rfl
  obtain ⟨hP, -⟩ := hv.owner_slot ht hr hc hl rfl
  have := prefixSum_add_lt (System.counts ms) hP (hv.indexOf_lt_counts ht hP hc' ho')
  rw [e]
  omega

/-- **Distinct nodes get distinct global numbers.**
Source: `sort_allgather` (part_000 ll. 825–860)
Kind: L -/
lemma globalId_inj {r r' c c' : Nat} (hr : r < P) (hr' : r' < P)
    (hc : c < (ms r).construct.length) (hc' : c' < (ms r').construct.length)
    (hl : (ms r).isLocal c) (hl' : (ms r').isLocal c')
    (h : (System.exchange ms r).globalId c = (System.exchange ms r').globalId c') :
    gnode r c = gnode r' c' := by
  obtain ⟨o, ho⟩ : ∃ o, (ms r).ownerRank c = o := ⟨_, rfl⟩
  obtain ⟨o', ho'⟩ : ∃ o', (ms r').ownerRank c' = o' := ⟨_, rfl⟩
  obtain ⟨a, ha, -, hga, hoa, e⟩ := hv.globalId_exchange ht hr hc hl ho
  obtain ⟨b, hb, -, hgb, hob, e'⟩ := hv.globalId_exchange ht hr' hc' hl' ho'
  obtain ⟨hP, -⟩ := hv.owner_slot ht hr hc hl ho
  obtain ⟨hP', -⟩ := hv.owner_slot ht hr' hc' hl' ho'
  rw [e, e'] at h
  obtain ⟨rfl, hi⟩ := prefixSum_add_inj (System.counts ms) (hv.indexOf_lt_counts ht hP ha hoa)
    (hv.indexOf_lt_counts ht hP' hb hob) (by exact_mod_cast h)
  rw [List.indexOf_inj ((hv.mem_ownedOrder hP).mpr ⟨ha, hoa⟩)
    ((hv.mem_ownedOrder hP).mpr ⟨hb, hob⟩)] at hi
  rw [← hga, ← hgb, hi]

/-- **Every number of a process's range is the global number of a node it owns.**
Source: `sort_allgather` (part_000 ll. 825–860)
Kind: L -/
lemma globalId_surj {o k : Nat} (ho : o < P) (hk1 : prefixSum (System.counts ms) o ≤ k)
    (hk2 : k < prefixSum (System.counts ms) o + System.counts ms o) :
    ∃ c < (ms o).construct.length, (ms o).ownerRank c = o ∧
      (System.exchange ms o).globalId c = k := by
  have hi : k - prefixSum (System.counts ms) o < (ownedOrder (ms o)).length := by
    rw [← counts_eq_length (ht o ho)]; omega
  obtain ⟨hc, hoc⟩ := (hv.mem_ownedOrder ho).mp (List.getElem_mem hi)
  have hl := TnodesMeta.isLocal_of_owned ((ht o ho).registered _ hc)
    (hoc.trans (hv.rank o ho).1.symm)
  obtain ⟨c', hc', hl', hg, -, e⟩ := hv.globalId_exchange ht ho hc hl hoc
  have hnd : (ownedOrder (ms o)).Nodup :=
    (List.perm_insertionSort _ _).nodup_iff.mpr ((List.nodup_range _).filter _)
  refine ⟨_, hc, hoc, ?_⟩
  rw [e, hv.unique o ho c' hc' _ hc hl' hl hg, List.indexOf_getElem hnd]
  omega

/-- **The owned range.** A process owns a node exactly when the node's global number lies in
the process's range `[goffset[r], goffset[r + 1])`.
Source: `sort_allgather` (part_000 ll. 825–860)
Kind: L -/
lemma owned_iff_globalId {r c : Nat} (hr : r < P) (hc : c < (ms r).construct.length)
    (hl : (ms r).isLocal c) :
    (ms r).ownerRank c = r ↔
      prefixSum (System.counts ms) r ≤ (System.exchange ms r).globalId c ∧
        (System.exchange ms r).globalId c < prefixSum (System.counts ms) (r + 1) := by
  obtain ⟨o, ho⟩ : ∃ o, (ms r).ownerRank c = o := ⟨_, rfl⟩
  obtain ⟨c', hc', -, -, ho', e⟩ := hv.globalId_exchange ht hr hc hl ho
  obtain ⟨hP, -⟩ := hv.owner_slot ht hr hc hl ho
  have hi := hv.indexOf_lt_counts ht hP hc' ho'
  rw [e, ho, prefixSum]
  constructor
  · rintro rfl; omega
  · intro h
    exact (prefixSum_add_inj (System.counts ms) hi
      (show (((ownedOrder (ms o)).indexOf c' : Nat) + prefixSum (System.counts ms) o -
        prefixSum (System.counts ms) r) < System.counts ms r by omega) (by omega)).1

/-- After the exchange every process holds the gathered counts and their prefix sums.
Source: `sort_allgather` (part_000 ll. 848–858)
Kind: L -/
lemma exchange_goffset {r : Nat} (hr : r < P) :
    (System.exchange ms r).goffset = prefixSum (System.counts ms) ∧
      (System.exchange ms r).globalOwnedCount = System.counts ms := by
  obtain ⟨cs, nl, ps, e⟩ := hv.exchange_eq ht hr
  rw [e]
  exact ⟨(ht r hr).phase2.goffset, (ht r hr).phase2.globalOwnedCount⟩

end ConsistentViews

/-! ## The global numbering -/

/-- What the global numbering of `p4est_tnodes_new` is for, over the processes `r < P` after the
exchange (`System.exchange ms r`), the nodes being the classes of `gnode`: every node is owned by
its smallest contributor rank, the same on every contributing process; every contributing
process derives the same global number for it, the owner's offset plus the position of the
owner's candidate in the owner's sorted owned list; the offsets are the prefix sums of the
gathered owned counts; and the global numbers are a bijection from the nodes onto
`[0, goffset[P])` in which each process's owned nodes fill `[goffset[r], goffset[r + 1])`.
Source: spec §1, §4.3–§4.5, §8
Kind: D -/
structure GlobalNumbering (P : Nat) (ms : Nat → TnodesMeta) (gnode : Nat → Nat → Nat) : Prop where
  /-- The owner is a contributor and the smallest one. -/
  owner_min : ∀ r < P, ∀ c < (ms r).construct.length, (ms r).isLocal c →
    (ms r).ownerRank c ∈ ((ms r).construct.getD c default).ranks ∧
    ∀ q ∈ ((ms r).construct.getD c default).ranks, (ms r).ownerRank c ≤ q
  /-- Every contributing process registers the same owner. -/
  owner_agree : ∀ r < P, ∀ r' < P, ∀ c < (ms r).construct.length,
    ∀ c' < (ms r').construct.length, (ms r).isLocal c → (ms r').isLocal c' →
      gnode r c = gnode r' c' → (ms r').ownerRank c' = (ms r).ownerRank c
  /-- The global number is the owner's offset plus the owner's position of the node. -/
  globalId_eq : ∀ r < P, ∀ c < (ms r).construct.length, (ms r).isLocal c →
    ∃ c' < (ms ((ms r).ownerRank c)).construct.length, (ms ((ms r).ownerRank c)).isLocal c' ∧
      gnode ((ms r).ownerRank c) c' = gnode r c ∧
      (ms ((ms r).ownerRank c)).ownerRank c' = (ms r).ownerRank c ∧
      (System.exchange ms r).globalId c = (System.exchange ms r).goffset ((ms r).ownerRank c) +
        (ownedOrder (ms ((ms r).ownerRank c))).indexOf c'
  /-- Every contributing process derives the same global number. -/
  agree : ∀ r < P, ∀ r' < P, ∀ c < (ms r).construct.length, ∀ c' < (ms r').construct.length,
    (ms r).isLocal c → (ms r').isLocal c' → gnode r c = gnode r' c' →
      (System.exchange ms r).globalId c = (System.exchange ms r').globalId c'
  /-- The offsets are the prefix sums of the gathered owned counts. -/
  goffset : ∀ r < P, (System.exchange ms r).goffset =
      prefixSum (System.exchange ms r).globalOwnedCount ∧
    (System.exchange ms r).globalOwnedCount = System.counts ms
  /-- Each gathered count is the number of owned nodes of its process. -/
  counts : ∀ q < P, System.counts ms q = (ownedOrder (ms q)).length
  /-- The global numbers lie in `[0, goffset[P])`. -/
  range : ∀ r < P, ∀ c < (ms r).construct.length, (ms r).isLocal c →
    0 ≤ (System.exchange ms r).globalId c ∧
      (System.exchange ms r).globalId c < prefixSum (System.counts ms) P
  /-- Distinct nodes have distinct global numbers. -/
  inj : ∀ r < P, ∀ r' < P, ∀ c < (ms r).construct.length, ∀ c' < (ms r').construct.length,
    (ms r).isLocal c → (ms r').isLocal c' →
      (System.exchange ms r).globalId c = (System.exchange ms r').globalId c' →
      gnode r c = gnode r' c'
  /-- Every number of `[0, goffset[P])` is a global number. -/
  surj : ∀ k < prefixSum (System.counts ms) P, ∃ r < P, ∃ c < (ms r).construct.length,
    (ms r).isLocal c ∧ (System.exchange ms r).globalId c = k
  /-- A process owns exactly the nodes whose global numbers lie in its range. -/
  owned_iff : ∀ r < P, ∀ c < (ms r).construct.length, (ms r).isLocal c →
    ((ms r).ownerRank c = r ↔
      prefixSum (System.counts ms) r ≤ (System.exchange ms r).globalId c ∧
        (System.exchange ms r).globalId c < prefixSum (System.counts ms) (r + 1))

/-- **The global numbering.** For processes whose traversal results are consistent views of one
mesh, `owned_query_reply`, `sort_allgather`, `sort_peers` and the exchange of
`wait_query_reply` number the nodes globally as `GlobalNumbering` says. -/
theorem exchange_globalNumbering {P : Nat} {ms : Nat → TnodesMeta} {gnode : Nat → Nat → Nat}
    (hv : ConsistentViews P ms gnode) (ht : ∀ r < P, Traversed (ms r)) :
    GlobalNumbering P ms gnode := by
  refine ⟨fun r hr c hc _ => ⟨TnodesMeta.ownerRank_mem ((ht r hr).registered c hc),
      fun q hq => ((ht r hr).registered c hc).owner_le hq⟩,
    fun r hr r' hr' c hc c' hc' hl hl' hg => hv.ownerRank_eq ht hr' hr hc' hc hl' hl hg.symm,
    fun r hr c hc hl => ?_, fun r hr r' hr' c hc c' hc' hl hl' hg =>
      hv.globalId_agree ht hr hr' hc hc' hl hl' hg,
    fun r hr => ?_, fun q hq => counts_eq_length (ht q hq),
    fun r hr c hc hl => hv.globalId_lt ht hr hc hl,
    fun r hr r' hr' c hc c' hc' hl hl' h => hv.globalId_inj ht hr hr' hc hc' hl hl' h,
    fun k hk => ?_, fun r hr c hc hl => hv.owned_iff_globalId ht hr hc hl⟩
  · obtain ⟨c', hc', hl', hg, ho', e⟩ := hv.globalId_exchange ht hr hc hl rfl
    exact ⟨c', hc', hl', hg, ho', by rw [e, (hv.exchange_goffset ht hr).1]⟩
  · obtain ⟨h1, h2⟩ := hv.exchange_goffset ht hr
    exact ⟨by rw [h1, h2], h2⟩
  · obtain ⟨o, ho, hk1, hk2⟩ := exists_prefixSum_block (System.counts ms) hk
    obtain ⟨c, hc, hoc, e⟩ := hv.globalId_surj ht ho hk1 hk2
    exact ⟨o, ho, c, hc, TnodesMeta.isLocal_of_owned ((ht o ho).registered c hc)
      (hoc.trans (hv.rank o ho).1.symm), e⟩

/-- The global node of a candidate of the two-process run: the grid vertex (row-major, 3 × 2)
or the element center (6 and 7) of its local contribution.
Source: none: input data
Kind: D -/
def twoRankNode (r c : Nat) : Nat :=
  let e := (((twoRankViews r).construct.getD c default).contr.find? (·.rank == r)).getD default
  ([[0, 1, 3, 4, 6], [1, 2, 4, 5, 7]].getD r []).getD e.nodene 0

/-- The two-process run of `twoRankViews` is numbered globally: its views are consistent and
traversed. -/
theorem exchange_globalNumbering_twoRanks :
    ConsistentViews 2 twoRankViews twoRankNode ∧ (∀ r < 2, Traversed (twoRankViews r)) ∧
      GlobalNumbering 2 twoRankViews twoRankNode :=
  have hv : ConsistentViews 2 twoRankViews twoRankNode :=
    ⟨by decide, by decide, by decide, by decide, by decide⟩
  have ht : ∀ r < 2, Traversed (twoRankViews r) := by decide
  ⟨hv, ht, exchange_globalNumbering hv ht⟩

end P4estTnodes
