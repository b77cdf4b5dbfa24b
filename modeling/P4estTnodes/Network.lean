import P4estTnodes.Exchange

/-!
# The exchange as a message-passing system

`post_query_reply` and `wait_query_reply` run on all processes at once and talk through
nonblocking sends and receives. This file models the exchange of all processes as one
transition system, and the exchange between two processes as a small state machine:

* `Net`: the control structures of the processes, their counters `nwtotal`, the messages in
  transit and the history of every message sent;
* `Net.Step`: the transport completes a posted send (`sendDone`, also before the message is
  received, as a buffered send may), delivers a message into a posted receive of the same
  source and tag (`recvDone`), or `MPI_Waitsome` reports a nonempty set of completed requests
  of a process and the loop body of `wait_query_reply` handles each (`wake`). `Net.SyncStep`
  is the same without completing a send whose message is still in transit: a transport that
  never buffers;
* `waitReport_spec`: what the loop body does to the state and the request of one peer
  (`waitOutcome`), and that it leaves the other peers alone;
* `TnodesMeta.Frame`: what completing a request and the loop body share, a change of one peer
  record that keeps its rank and counts; it leaves the slots of the other ranks
  (`Frame.slot_ne`) and the potentials of the other peers alone;
* `PairOk`: the exchange between a lower process `lo` and a higher process `hi` sharing nodes.
  The lower side goes `1, 2, 0` (`loView`), the higher side `3, 4, 0` (`hiView`); the machine
  counts the query and the reply in transit and sent. Each step of a process or of the
  transport is one of its transitions (`PairOk.lo_recvDone` … `PairOk.hi_wake`); in each of
  its states some step is enabled without buffering (`PairOk.progress`); in its final state every
  message is received, after one query and one reply (`PairOk.final`); and every transition
  lowers the potential `pot` of the record it moves.

The loop body is handled atomically. Its only effects visible to other processes are the sends
it posts, and a message posted in the body is received only after the body, so any interleaving
of the transport with the body reorders to one of these runs.
-/

namespace P4estTnodes

/-! ## Messages -/

/-- A message posted by `sc_MPI_Isend`: source, destination, tag and the buffer it carries.
Source: `post_query_reply` (part_000 ll. 1022–1025), `wait_query_reply` (ll. 1106–1108)
Kind: D -/
structure Msg where
  src : Nat
  dst : Nat
  tag : Tag
  buf : List Int
  deriving DecidableEq, Repr

/-- The number of messages of `l` from `src` to `dst` with tag `tag`.
Source: none: infrastructure
Kind: D -/
def countMsg (l : List Msg) (src dst : Nat) (tag : Tag) : Nat :=
  l.countP fun m => m.src = src ∧ m.dst = dst ∧ m.tag = tag

@[simp] lemma countMsg_nil (src dst : Nat) (tag : Tag) : countMsg [] src dst tag = 0 := rfl

@[simp] lemma countMsg_append (l l' : List Msg) (src dst : Nat) (tag : Tag) :
    countMsg (l ++ l') src dst tag = countMsg l src dst tag + countMsg l' src dst tag :=
  List.countP_append _ _ _

@[simp] lemma countMsg_singleton (m : Msg) (src dst : Nat) (tag : Tag) :
    countMsg [m] src dst tag = if m.src = src ∧ m.dst = dst ∧ m.tag = tag then 1 else 0 := by
  simp [countMsg, List.countP_cons]

/-- Receiving a message removes one message of its source, destination and tag. -/
lemma countMsg_erase {l : List Msg} {m : Msg} (h : m ∈ l) (src dst : Nat) (tag : Tag) :
    countMsg l src dst tag = countMsg (l.erase m) src dst tag +
      if m.src = src ∧ m.dst = dst ∧ m.tag = tag then 1 else 0 := by
  rw [countMsg, (List.perm_cons_erase h).countP_eq, List.countP_cons]
  simp [countMsg]

lemma countMsg_pos {l : List Msg} {m : Msg} (h : m ∈ l) : 0 < countMsg l m.src m.dst m.tag :=
  List.countP_pos_iff.mpr ⟨m, h, by simp⟩

lemma exists_of_countMsg_pos {l : List Msg} {a b : Nat} {t : Tag} (h : 0 < countMsg l a b t) :
    ∃ m ∈ l, m.src = a ∧ m.dst = b ∧ m.tag = t := by
  obtain ⟨m, hm, hp⟩ := List.countP_pos_iff.mp h
  exact ⟨m, hm, by simpa using hp⟩

/-- The messages of a list built process by process, each message from its own process. -/
lemma countMsg_flatMap {F : Nat → List Msg} (hF : ∀ r, ∀ m ∈ F r, m.src = r) :
    ∀ {L : List Nat}, L.Nodup → ∀ (a b : Nat) (t : Tag),
      countMsg (L.flatMap F) a b t = if a ∈ L then countMsg (F a) a b t else 0
  | [], _, _, _, _ => rfl
  | x :: xs, hnd, a, b, t => by
    rw [List.nodup_cons] at hnd
    rw [List.flatMap_cons, countMsg_append, countMsg_flatMap hF hnd.2]
    by_cases hx : a = x
    · subst hx; simp [hnd.1]
    · have h0 : countMsg (F x) a b t = 0 := List.countP_eq_zero.mpr fun m hm h => by
        simp only [decide_eq_true_eq] at h
        exact hx (h.1.symm.trans (hF x m hm))
      simp [hx, h0]

/-- With distinct ranks, at most the record of rank `q` is of rank `q`. -/
lemma countP_rank (Q : Peer → Prop) [DecidablePred Q] (q : Nat) :
    ∀ {ps : List Peer}, (ps.map (·.rank)).Nodup →
      ps.countP (fun p => Q p ∧ p.rank = q) =
        if q ∈ ps.map (·.rank) ∧ Q ((ps.find? (·.rank == q)).getD default) then 1 else 0
  | [], _ => by simp
  | p :: ps, hnd => by
    rw [List.map_cons, List.nodup_cons] at hnd
    rw [List.countP_cons, countP_rank Q q hnd.2]
    by_cases hp : p.rank = q
    · subst hp; simp [hnd.1]
    · simp [hp, Ne.symm hp, List.find?_cons]

/-! ## Requests of one process -/

/-- The request of the peer at index `j`.
Source: `sc_array_index (&me->pereq, j)` in `wait_query_reply` (part_000 l. 1075)
Kind: D -/
def TnodesMeta.reqAt (m : TnodesMeta) (j : Nat) : Req := m.pereq.getD j .null

/-- The request of the peer at index `j` replaced.
Source: `wait_query_reply` (part_000 ll. 1064–1067)
Kind: D -/
def TnodesMeta.setReq (m : TnodesMeta) (j : Nat) (q : Req) : TnodesMeta :=
  { m with pereq := m.pereq.set j q }

@[simp] lemma setReq_peers (m : TnodesMeta) (j : Nat) (q : Req) : (m.setReq j q).peers = m.peers :=
  rfl

@[simp] lemma setReq_mpirank (m : TnodesMeta) (j : Nat) (q : Req) :
    (m.setReq j q).mpirank = m.mpirank := rfl

@[simp] lemma setReq_pereq_length (m : TnodesMeta) (j : Nat) (q : Req) :
    (m.setReq j q).pereq.length = m.pereq.length := List.length_set _ _ _

lemma reqAt_setReq (m : TnodesMeta) (j i : Nat) (q : Req) :
    (m.setReq j q).reqAt i = if j = i ∧ i < m.pereq.length then q else m.reqAt i :=
  getD_set _ _ _ _ _

@[simp] lemma setQuerypos_mpirank (m : TnodesMeta) (j : Nat) (buf : List Int) :
    (m.setQuerypos j buf).mpirank = m.mpirank := rfl

@[simp] lemma setQuerypos_pereq (m : TnodesMeta) (j : Nat) (buf : List Int) :
    (m.setQuerypos j buf).pereq = m.pereq := rfl

/-- The message the send request of the peer at index `j` of process `r` carries: the buffer
`querypos` of that peer.
Source: `sc_MPI_Isend (sc_array_index (&peer->querypos, 0), peer->bufcount, ...)`
(part_000 ll. 1022–1025, 1106–1108)
Kind: D -/
def TnodesMeta.postedMsg (m : TnodesMeta) (r j : Nat) : List Msg :=
  match m.reqAt j with
  | .send d t => [⟨r, d, t, (m.peers.getD j default).querypos⟩]
  | _ => []

/-- The index of the peer record of rank `q`, or the number of records if there is none.
Source: the lookup of `proc_peer` (part_000 ll. 207–224)
Kind: D -/
def TnodesMeta.idx (m : TnodesMeta) (q : Nat) : Nat := (m.peers.map (·.rank)).indexOf q

/-- The state and the request of the peer record of rank `q`.
Source: none: infrastructure
Kind: D -/
def TnodesMeta.slot (m : TnodesMeta) (q : Nat) : Nat × Req :=
  ((m.peers.getD (m.idx q) default).done, m.reqAt (m.idx q))

lemma find?_rank_getD (ps : List Peer) (q : Nat) :
    (ps.find? (·.rank == q)).getD default = ps.getD ((ps.map (·.rank)).indexOf q) default := by
  induction ps with
  | nil => rfl
  | cons p ps ih => by_cases h : p.rank = q <;> simp [List.find?_cons, List.indexOf_cons, h, ih]

/-- The record `peerOf` finds is the one at the index of its rank. -/
lemma peerOf_eq_getD_idx (m : TnodesMeta) (q : Nat) :
    m.peerOf q = m.peers.getD (m.idx q) default :=
  find?_rank_getD m.peers q

lemma idx_of_rank {m : TnodesMeta} (hnd : (m.peers.map (·.rank)).Nodup) {j : Nat}
    (hj : j < m.peers.length) : m.idx (m.peers.getD j default).rank = j := by
  have := List.indexOf_getElem hnd j (by simpa using hj)
  rw [List.getD_eq_getElem _ _ hj]
  simpa [TnodesMeta.idx] using this

lemma rank_idx {m : TnodesMeta} {q : Nat} (h : m.idx q < m.peers.length) :
    (m.peers.getD (m.idx q) default).rank = q := by
  have := List.getElem_indexOf (show (m.peers.map (·.rank)).indexOf q < (m.peers.map (·.rank)).length
    by simpa [TnodesMeta.idx] using h)
  rw [List.getD_eq_getElem _ _ h]
  simp only [List.getElem_map] at this
  exact this

/-- A record at another index than `j` is not the record of the rank at `j`. -/
lemma idx_ne {m : TnodesMeta} {j : Nat} (hj : j < m.peers.length) {q : Nat}
    (hq : q ≠ (m.peers.getD j default).rank) : m.idx q ≠ j :=
  fun h => hq (by rw [← h]; exact (rank_idx (h ▸ hj)).symm)

/-- The slot of the rank of the record at `j` is that record's. -/
lemma slot_rank {m : TnodesMeta} (hnd : (m.peers.map (·.rank)).Nodup) {j : Nat}
    (hj : j < m.peers.length) :
    m.slot (m.peers.getD j default).rank = ((m.peers.getD j default).done, m.reqAt j) := by
  rw [TnodesMeta.slot, idx_of_rank hnd hj]

lemma postedMsg_send {m : TnodesMeta} {r j d : Nat} {t : Tag} (h : m.reqAt j = .send d t) :
    m.postedMsg r j = [⟨r, d, t, (m.peers.getD j default).querypos⟩] := by
  simp [TnodesMeta.postedMsg, h]

lemma postedMsg_nil {m : TnodesMeta} {r j : Nat} (h : ∀ d t, m.reqAt j ≠ .send d t) :
    m.postedMsg r j = [] := by
  unfold TnodesMeta.postedMsg
  split
  · exact absurd ‹_› (h _ _)
  · rfl

/-! ## The loop body on one peer -/

/-- What the loop body of `wait_query_reply` does with the reported request of a peer record
`p` of process `r`: its new state, its new request, and whether the peer is finished.
Source: `wait_query_reply` (part_000 ll. 1076–1166)
Kind: D -/
def waitOutcome (r : Nat) (p : Peer) : Nat × Req × Bool :=
  if p.rank > r then
    if p.done = 1 then (2, .send p.rank .reply, false) else (0, .null, true)
  else if p.done = 3 then (4, .recv p.rank .reply, false) else (0, .null, true)

/-- The loop body replaces the peer record and the request at index `j` and keeps the rank.
Source: `wait_query_reply` (part_000 ll. 1070–1166)
Kind: L -/
lemma waitReport_eq (me : TnodesMeta) (j : Nat) : ∃ p' q',
    (waitReport me j).1.peers = me.peers.set j p' ∧ (waitReport me j).1.pereq = me.pereq.set j q' ∧
    (waitReport me j).1.mpirank = me.mpirank ∧ (me.peers.getD j default).SameCore p' ∧
    p'.querypos.length = (me.peers.getD j default).querypos.length ∧
    (p'.done, q', (waitReport me j).2) = waitOutcome me.mpirank (me.peers.getD j default) := by
  unfold waitReport waitOutcome
  dsimp only
  split_ifs
  · exact ⟨_, _, rfl, List.set_set _ _ _ _, rfl, ⟨rfl, rfl, rfl, rfl⟩, by simp, rfl⟩
  · exact ⟨_, _, rfl, rfl, rfl, ⟨rfl, rfl, rfl, rfl⟩, rfl, rfl⟩
  · exact ⟨_, _, rfl, List.set_set _ _ _ _, rfl, ⟨rfl, rfl, rfl, rfl⟩, rfl, rfl⟩
  · obtain ⟨cs, nl, ps, e⟩ := processReply_eq { me with pereq := me.pereq.set j .null } j
    refine ⟨{ me.peers.getD j default with
      remosort := sortedReplies { me with pereq := me.pereq.set j .null } j, done := 0 }, .null,
      by simp [processReply], by rw [e], by rw [e], ⟨rfl, rfl, rfl, rfl⟩, rfl, rfl⟩

/-- **The loop body on one peer.** `waitReport` sets the state and the request of the peer at
index `j` as `waitOutcome` says, keeps its rank, counts and the length of its buffer, and leaves
the rank, the other peers and their requests alone.
Source: `wait_query_reply` (part_000 ll. 1070–1166)
Kind: L -/
lemma waitReport_spec (me : TnodesMeta) {j : Nat} (hj : j < me.peers.length)
    (hq : j < me.pereq.length) :
    (waitReport me j).1.mpirank = me.mpirank ∧
    (waitReport me j).1.peers.length = me.peers.length ∧
    (waitReport me j).1.pereq.length = me.pereq.length ∧
    (∀ i ≠ j, (waitReport me j).1.peers.getD i default = me.peers.getD i default ∧
      (waitReport me j).1.reqAt i = me.reqAt i) ∧
    (me.peers.getD j default).SameCore ((waitReport me j).1.peers.getD j default) ∧
    ((waitReport me j).1.peers.getD j default).querypos.length =
      (me.peers.getD j default).querypos.length ∧
    (((waitReport me j).1.peers.getD j default).done, (waitReport me j).1.reqAt j,
      (waitReport me j).2) = waitOutcome me.mpirank (me.peers.getD j default) := by
  obtain ⟨p', q', hp, hq', hr, hc, hl, ho⟩ := waitReport_eq me j
  have hpj : (waitReport me j).1.peers.getD j default = p' := by simp [hp, getD_set, hj]
  have hqj : (waitReport me j).1.reqAt j = q' := by simp [TnodesMeta.reqAt, hq', getD_set, hq]
  refine ⟨hr, by simp [hp], by simp [hq'], fun i hi => ?_, hpj ▸ hc, hpj ▸ hl, hpj ▸ hqj ▸ ho⟩
  simp [hp, hq', TnodesMeta.reqAt, getD_set, Ne.symm hi]

/-- The loop body reports the peer finished exactly when it sets its state to `0`. -/
lemma waitOutcome_fin (r : Nat) (p : Peer) :
    (waitOutcome r p).2.2 = decide ((waitOutcome r p).1 = 0) := by
  unfold waitOutcome; split_ifs <;> rfl

/-- The loop body sends one message, the reply to a higher peer whose query it has received. -/
lemma waitReport_postedMsg (me : TnodesMeta) {j : Nat} (hj : j < me.peers.length)
    (hq : j < me.pereq.length) (r : Nat) :
    (waitReport me j).1.postedMsg r j =
      if me.mpirank < (me.peers.getD j default).rank ∧ (me.peers.getD j default).done = 1 then
        [⟨r, (me.peers.getD j default).rank, .reply,
          ((waitReport me j).1.peers.getD j default).querypos⟩]
      else [] := by
  have ho := (waitReport_spec me hj hq).2.2.2.2.2.2
  by_cases h1 : me.mpirank < (me.peers.getD j default).rank
  · by_cases h2 : (me.peers.getD j default).done = 1
    · simp only [waitOutcome, gt_iff_lt, h1, h2, if_true, Prod.mk.injEq] at ho
      rw [if_pos ⟨h1, h2⟩, postedMsg_send ho.2.1]
    · simp only [waitOutcome, gt_iff_lt, h1, h2, if_true, if_false, Prod.mk.injEq] at ho
      rw [if_neg fun h => h2 h.2, postedMsg_nil fun d t => by simp [ho.2.1]]
  · rw [if_neg fun h => h1 h.1, postedMsg_nil fun d t => ?_]
    by_cases h3 : (me.peers.getD j default).done = 3 <;>
      simp only [waitOutcome, gt_iff_lt, h1, h3, if_true, if_false, Prod.mk.injEq] at ho <;>
      simp [ho.2.1]

/-! ## Updates of one peer record -/

/-- `m'` is `m` with at most the record and the request of the peer at index `j` changed, that
record keeping its rank and counts: what completing a request and the loop body do to a process.
Source: `wait_query_reply` (part_000 ll. 1062–1168)
Kind: D -/
structure TnodesMeta.Frame (m m' : TnodesMeta) (j : Nat) : Prop where
  mpirank : m'.mpirank = m.mpirank
  length : m'.peers.length = m.peers.length
  pereq : m'.pereq.length = m.pereq.length
  other : ∀ i ≠ j, m'.peers.getD i default = m.peers.getD i default ∧ m'.reqAt i = m.reqAt i
  core : (m.peers.getD j default).SameCore (m'.peers.getD j default)

/-- A request that is posted is of a peer with a request slot. -/
lemma lt_of_reqAt_ne {m : TnodesMeta} {j : Nat} (h : m.reqAt j ≠ .null) : j < m.pereq.length :=
  not_le.mp fun hle => h (List.getD_eq_default _ _ hle)

lemma frame_setReq (m : TnodesMeta) (j : Nat) (q : Req) : m.Frame (m.setReq j q) j where
  mpirank := rfl
  length := rfl
  pereq := setReq_pereq_length m j q
  other i hi := ⟨rfl, by rw [reqAt_setReq, if_neg fun h => hi h.1.symm]⟩
  core := .refl _

lemma frame_setQuerypos (m : TnodesMeta) (j : Nat) (buf : List Int) (q : Req) :
    m.Frame ((m.setQuerypos j buf).setReq j q) j where
  mpirank := rfl
  length := setQuerypos_peers_length m j buf
  pereq := setReq_pereq_length _ j q
  other i hi := ⟨by rw [setReq_peers, setQuerypos_getD, if_neg fun h => hi h.1.symm],
    by rw [reqAt_setReq, if_neg fun h => hi h.1.symm]; rfl⟩
  core := by
    simp only [setReq_peers, setQuerypos_getD, true_and]
    split_ifs
    · exact ⟨rfl, rfl, rfl, rfl⟩
    · exact .refl _

lemma frame_waitReport (m : TnodesMeta) {j : Nat} (hj : j < m.peers.length)
    (hq : j < m.pereq.length) : m.Frame (waitReport m j).1 j :=
  have h := waitReport_spec m hj hq
  ⟨h.1, h.2.1, h.2.2.1, h.2.2.2.1, h.2.2.2.2.1⟩

namespace TnodesMeta.Frame

variable {m m' : TnodesMeta} {j : Nat} (h : m.Frame m' j)
include h

lemma rank_getD (i : Nat) : (m'.peers.getD i default).rank = (m.peers.getD i default).rank := by
  by_cases hi : i = j
  · subst hi; exact h.core.1
  · rw [(h.other i hi).1]

lemma bufcount_getD (i : Nat) :
    (m'.peers.getD i default).bufcount = (m.peers.getD i default).bufcount := by
  by_cases hi : i = j
  · subst hi; exact h.core.2.1
  · rw [(h.other i hi).1]

lemma ranks : m'.peers.map (·.rank) = m.peers.map (·.rank) :=
  List.ext_getElem (by simp [h.length]) fun i h1 h2 => by
    have := h.rank_getD i
    rw [List.getD_eq_getElem _ _ (by simpa using h1), List.getD_eq_getElem _ _ (by simpa using h2)]
      at this
    simpa using this

lemma idx (q : Nat) : m'.idx q = m.idx q := by simp only [TnodesMeta.idx, h.ranks]

lemma peerOf_bufcount (q : Nat) : (m'.peerOf q).bufcount = (m.peerOf q).bufcount := by
  rw [peerOf_eq_getD_idx, peerOf_eq_getD_idx, h.idx, h.bufcount_getD]

/-- The slots of the other ranks are unchanged. -/
lemma slot_ne (hj : j < m.peers.length) {q : Nat} (hq : q ≠ (m.peers.getD j default).rank) :
    m'.slot q = m.slot q := by
  have hne := idx_ne hj hq
  simp only [TnodesMeta.slot, h.idx, (h.other _ hne).1, (h.other _ hne).2]

lemma peers_eq_set : m'.peers = m.peers.set j (m'.peers.getD j default) :=
  List.ext_getElem (by simp [h.length]) fun i h1 h2 => by
    rw [List.getElem_set]
    split_ifs with hij
    · subst hij; exact (List.getD_eq_getElem _ _ h1).symm
    · have := (h.other i (Ne.symm hij)).1
      rwa [List.getD_eq_getElem _ _ h1, List.getD_eq_getElem _ _ (by simpa using h2)] at this

/-- The unfinished peers change only by the record at `j`. -/
lemma count_done (hj : j < m.peers.length) :
    (m'.peers.filter (·.done ≠ 0)).length + (if (m.peers.getD j default).done ≠ 0 then 1 else 0) =
      (m.peers.filter (·.done ≠ 0)).length + if (m'.peers.getD j default).done ≠ 0 then 1 else 0 := by
  have hle := List.boole_getElem_le_countP (fun p : Peer => decide (p.done ≠ 0)) m.peers j hj
  have hs := h.peers_eq_set
  generalize m'.peers.getD j default = p' at hs ⊢
  rw [← List.countP_eq_length_filter, ← List.countP_eq_length_filter, hs,
    List.countP_set _ _ _ _ hj, List.getD_eq_getElem _ _ hj]
  simp only [decide_eq_true_eq] at hle ⊢
  omega

end TnodesMeta.Frame

/-! ## All processes and the transport -/

/-- The exchange of all processes: their control structures, their counters `nwtotal` of
unfinished peers, the messages in transit, and every message sent so far.
Source: `wait_query_reply` (part_000 ll. 1036–1069) on every process, and the transport
Kind: D -/
structure Net where
  procs : Nat → TnodesMeta
  nwtotal : Nat → Nat
  transit : List Msg
  sent : List Msg

/-- Process `r` replaced by `m`.
Source: none: infrastructure
Kind: D -/
def Net.setProc (s : Net) (r : Nat) (m : TnodesMeta) : Net :=
  { s with procs := Function.update s.procs r m }

@[simp] lemma Net.setProc_procs (s : Net) (r : Nat) (m : TnodesMeta) :
    (s.setProc r m).procs = Function.update s.procs r m := rfl

@[simp] lemma Net.setProc_nwtotal (s : Net) (r : Nat) (m : TnodesMeta) :
    (s.setProc r m).nwtotal = s.nwtotal := rfl

@[simp] lemma Net.setProc_transit (s : Net) (r : Nat) (m : TnodesMeta) :
    (s.setProc r m).transit = s.transit := rfl

@[simp] lemma Net.setProc_sent (s : Net) (r : Nat) (m : TnodesMeta) :
    (s.setProc r m).sent = s.sent := rfl

/-- The loop body of `wait_query_reply` on process `r` for the reported request of peer `j`:
`waitReport`, the counter decremented for a finished peer, and the message of the send it
posts put in transit.
Source: `wait_query_reply` (part_000 ll. 1070–1166)
Kind: D -/
def Net.wakeOne (r : Nat) (s : Net) (j : Nat) : Net :=
  { procs := Function.update s.procs r (waitReport (s.procs r) j).1
    nwtotal := Function.update s.nwtotal r
      (if (waitReport (s.procs r) j).2 then s.nwtotal r - 1 else s.nwtotal r)
    transit := s.transit ++ (waitReport (s.procs r) j).1.postedMsg r j
    sent := s.sent ++ (waitReport (s.procs r) j).1.postedMsg r j }

/-- One pass of the loop of `wait_query_reply` on process `r`: the body for each index of `W`
that `MPI_Waitsome` reported.
Source: `wait_query_reply` (part_000 ll. 1062–1168)
Kind: D -/
def Net.wake (r : Nat) (W : List Nat) (s : Net) : Net := W.foldl (Net.wakeOne r) s

@[simp] lemma Net.wake_nil (r : Nat) (s : Net) : s.wake r [] = s := rfl

@[simp] lemma Net.wake_cons (r j : Nat) (W : List Nat) (s : Net) :
    s.wake r (j :: W) = (s.wakeOne r j).wake r W := rfl

/-- **The steps of the exchange** on processes `r < P`. The transport completes a posted send,
whether or not its message has been received (`sendDone`), or delivers a message in transit
into a posted receive of its source and tag (`recvDone`); or `MPI_Waitsome` on a process whose
loop still runs reports a nonempty set of completed requests, and the loop body handles each
(`wake`).
Source: `post_query_reply` (part_000 ll. 979–1034), `wait_query_reply` (ll. 1036–1177)
Kind: D -/
inductive Net.Step (P : Nat) : Net → Net → Prop
  | sendDone {s : Net} {r j d : Nat} {t : Tag} : r < P → (s.procs r).reqAt j = .send d t →
      Net.Step P s (s.setProc r ((s.procs r).setReq j .ready))
  | recvDone {s : Net} {r j : Nat} {m : Msg} : r < P → m ∈ s.transit → m.dst = r →
      (s.procs r).reqAt j = .recv m.src m.tag →
      Net.Step P s { s.setProc r (((s.procs r).setQuerypos j m.buf).setReq j .ready) with
        transit := s.transit.erase m }
  | wake {s : Net} {r : Nat} {W : List Nat} : r < P → 0 < s.nwtotal r → W ≠ [] → W.Nodup →
      (∀ j ∈ W, (s.procs r).reqAt j = .ready) → Net.Step P s (s.wake r W)

/-- The steps of a transport that never buffers: a send completes only once its message has
been received.
Source: the MPI standard mode, which may complete a send only when it is matched
Kind: D -/
inductive Net.SyncStep (P : Nat) : Net → Net → Prop
  | sendDone {s : Net} {r j d : Nat} {t : Tag} : r < P → (s.procs r).reqAt j = .send d t →
      countMsg s.transit r d t = 0 →
      Net.SyncStep P s (s.setProc r ((s.procs r).setReq j .ready))
  | recvDone {s : Net} {r j : Nat} {m : Msg} : r < P → m ∈ s.transit → m.dst = r →
      (s.procs r).reqAt j = .recv m.src m.tag →
      Net.SyncStep P s { s.setProc r (((s.procs r).setQuerypos j m.buf).setReq j .ready) with
        transit := s.transit.erase m }
  | wake {s : Net} {r : Nat} {W : List Nat} : r < P → 0 < s.nwtotal r → W ≠ [] → W.Nodup →
      (∀ j ∈ W, (s.procs r).reqAt j = .ready) → Net.SyncStep P s (s.wake r W)

lemma Net.SyncStep.step {P : Nat} {s s' : Net} : Net.SyncStep P s s' → Net.Step P s s'
  | .sendDone hr hq _ => .sendDone hr hq
  | .recvDone hr hm hd hq => .recvDone hr hm hd hq
  | .wake hr hn hW hnd hq => .wake hr hn hW hnd hq

/-- The runs of `n` steps from `s` to `s'`.
Source: none: infrastructure
Kind: D -/
inductive Net.Run (P : Nat) : Net → Nat → Net → Prop
  | refl (s : Net) : Net.Run P s 0 s
  | cons {s s' t : Net} {n : Nat} : Net.Step P s s' → Net.Run P s' n t → Net.Run P s (n + 1) t

/-- The queries `post_query_reply` sends on the processes `r < P` of the states `ms`: for every
peer record of a lower rank with messages, its buffer `querypos`.
Source: `post_query_reply` (part_000 ll. 999–1033)
Kind: D -/
def initMsgs (P : Nat) (ms : Nat → TnodesMeta) : List Msg :=
  (List.range P).flatMap fun r =>
    ((ms r).peers.filter fun p => p.bufcount ≠ 0 ∧ p.rank < (ms r).mpirank).map
      fun p => ⟨r, p.rank, .query, p.querypos⟩

/-- The counter `nwtotal` that `wait_query_reply` starts with: the peers that post messages.
Source: `wait_query_reply` (part_000 ll. 1055–1061)
Kind: D -/
def nwInit (m : TnodesMeta) : Nat :=
  if m.ghost = none ∨ m.peers = [] then 0 else m.peers.length - m.emptypeers

/-- The exchange as `wait_query_reply` starts on the processes `r < P` in the states `ms`
`post_query_reply` leaves: their counters, and the queries posted.
Source: `wait_query_reply` (part_000 ll. 1036–1061)
Kind: D -/
def Net.start (P : Nat) (ms : Nat → TnodesMeta) : Net where
  procs := ms
  nwtotal r := nwInit (ms r)
  transit := initMsgs P ms
  sent := initMsgs P ms

/-- The exchange of `p4est_tnodes_new` on the processes `r < P` from their traversal results
`ms`: every process after `sort_peers`.
Source: `p4est_tnodes_new` (part_000 ll. 1494–1507)
Kind: D -/
def Net.init (P : Nat) (ms : Nat → TnodesMeta) : Net := Net.start P (System.phase2 ms)

/-- The states reachable from `s0` by steps on the processes `r < P`.
Source: none: infrastructure
Kind: D -/
inductive Net.Reachable (P : Nat) (s0 : Net) : Net → Prop
  | init : Net.Reachable P s0 s0
  | step {s s' : Net} : Net.Reachable P s0 s → Net.Step P s s' → Net.Reachable P s0 s'

/-! ## One pair of processes -/

/-- The peer record of the lower process `lo` for `hi` in the stage `a` of the pair machine:
receiving the query, the query received, sending the reply, the reply sent, done.
Source: `post_query_reply` (part_000 ll. 1010–1018), `wait_query_reply` (ll. 1076–1114)
Kind: D -/
def loView (hi : Nat) : Nat → Nat × Req
  | 0 => (1, .recv hi .query)
  | 1 => (1, .ready)
  | 2 => (2, .send hi .reply)
  | 3 => (2, .ready)
  | _ => (0, .null)

/-- The peer record of the higher process `hi` for `lo` in the stage `b` of the pair machine:
sending the query, the query sent, receiving the reply, the reply received, done.
Source: `post_query_reply` (part_000 ll. 1019–1031), `wait_query_reply` (ll. 1115–1166)
Kind: D -/
def hiView (lo : Nat) : Nat → Nat × Req
  | 0 => (3, .send lo .query)
  | 1 => (3, .ready)
  | 2 => (4, .recv lo .reply)
  | 3 => (4, .ready)
  | _ => (0, .null)

/-- **The exchange between `lo < hi`.** With `bc` messages' worth of shared nodes, `x` and `y`
the records of `lo` for `hi` and of `hi` for `lo`, and the counts of the query and of the reply
in transit (`tq`, `tr`) and sent (`sq`, `sr`): a pair without messages is left alone; otherwise
the two sides are at stages `a` and `b`, the reply is received only after it is sent, the query
is in transit until `lo` receives it, the reply from its send until `hi` receives it, and each
message is sent once.
Source: `post_query_reply` (part_000 ll. 999–1033), `wait_query_reply` (ll. 1062–1168)
Kind: D -/
def PairOk (lo hi bc : Nat) (x y : Nat × Req) (tq tr sq sr : Nat) : Prop :=
  (bc = 0 ∧ x = (0, .null) ∧ y = (0, .null) ∧ tq = 0 ∧ tr = 0 ∧ sq = 0 ∧ sr = 0) ∨
  (bc ≠ 0 ∧ ∃ a ≤ 4, ∃ b ≤ 4, x = loView hi a ∧ y = hiView lo b ∧ (3 ≤ b → 2 ≤ a) ∧
    tq = (if a = 0 then 1 else 0) ∧ tr = (if 2 ≤ a ∧ b ≤ 2 then 1 else 0) ∧ sq = 1 ∧
    sr = (if 2 ≤ a then 1 else 0))

/-- The potential of a peer record: the steps it has left.
Source: none: termination measure
Kind: D -/
def pot : Nat × Req → Nat
  | (_, .null) => 0
  | (d, .ready) => if d = 1 ∨ d = 3 then 3 else 1
  | (d, _) => if d = 1 ∨ d = 3 then 4 else 2

/-- The steps the processes `r < P` have left: the potential of all their peer records.
Source: none: termination measure
Kind: D -/
def Net.measure (P : Nat) (s : Net) : Nat :=
  ∑ r ∈ Finset.range P, ∑ j ∈ Finset.range (s.procs r).peers.length,
    pot (((s.procs r).peers.getD j default).done, (s.procs r).reqAt j)

/-- The potentials of the peers change only by the record at `j`. -/
lemma TnodesMeta.Frame.sum_pot_lt {m m' : TnodesMeta} {j : Nat} (h : m.Frame m' j)
    (hj : j < m.peers.length)
    (hlt : pot ((m'.peers.getD j default).done, m'.reqAt j) < pot ((m.peers.getD j default).done, m.reqAt j)) :
    ∑ i ∈ Finset.range m'.peers.length, pot ((m'.peers.getD i default).done, m'.reqAt i) <
      ∑ i ∈ Finset.range m.peers.length, pot ((m.peers.getD i default).done, m.reqAt i) := by
  rw [h.length]
  refine Finset.sum_lt_sum (fun i _ => ?_) ⟨j, Finset.mem_range.mpr hj, hlt⟩
  by_cases hi : i = j
  · subst hi; exact hlt.le
  · rw [(h.other i hi).1, (h.other i hi).2]

/-! ## The transitions of the pair machine -/

section pair

variable {lo hi bc : Nat} {x y : Nat × Req} {tq tr sq sr : Nat}

/-- Before the exchange, a pair with messages has the query in transit and both requests
posted. -/
lemma pairOk_init (lo hi bc : Nat) :
    PairOk lo hi bc (if bc = 0 then (0, .null) else (1, .recv hi .query))
      (if bc = 0 then (0, .null) else (3, .send lo .query)) (if bc = 0 then 0 else 1) 0
      (if bc = 0 then 0 else 1) 0 := by
  by_cases h : bc = 0
  · exact .inl ⟨h, by simp [h]⟩
  · exact .inr ⟨h, 0, by omega, 0, by omega, by simp [h, loView, hiView]⟩

lemma PairOk.passive (h : PairOk lo hi bc x y tq tr sq sr) (hx : x.2 ≠ .null ∨ y.2 ≠ .null) :
    bc ≠ 0 ∧ ∃ a ≤ 4, ∃ b ≤ 4, x = loView hi a ∧ y = hiView lo b ∧ (3 ≤ b → 2 ≤ a) ∧
      tq = (if a = 0 then 1 else 0) ∧ tr = (if 2 ≤ a ∧ b ≤ 2 then 1 else 0) ∧ sq = 1 ∧
      sr = (if 2 ≤ a then 1 else 0) :=
  h.resolve_left fun ⟨_, hx', hy', _⟩ => by rcases hx with hx | hx <;> simp_all

/-- The transport completes the reply of `lo`. -/
lemma PairOk.lo_sendDone {d : Nat} {t : Tag} (h : PairOk lo hi bc x y tq tr sq sr)
    (hq : x.2 = .send d t) :
    d = hi ∧ t = .reply ∧ pot (x.1, .ready) < pot x ∧
      PairOk lo hi bc (x.1, .ready) y tq tr sq sr := by
  obtain ⟨hbc, a, ha, b, hb, rfl, rfl, h3, rfl, rfl, rfl, rfl⟩ := h.passive (.inl (by simp [hq]))
  rcases a with _ | _ | _ | _ | _ | a <;> simp [loView] at hq ⊢
  · exact ⟨hq.1.symm, hq.2.symm, by simp [pot], .inr ⟨hbc, 3, by omega, b, hb, by simp [loView], rfl,
      by omega, by simp [hb]⟩⟩

/-- The transport delivers the query to `lo`. -/
lemma PairOk.lo_recvDone {q : Nat} {t : Tag} (h : PairOk lo hi bc x y tq tr sq sr)
    (hq : x.2 = .recv q t) :
    q = hi ∧ t = .query ∧ 0 < tq ∧ pot (x.1, .ready) < pot x ∧
      PairOk lo hi bc (x.1, .ready) y (tq - 1) tr sq sr := by
  obtain ⟨hbc, a, ha, b, hb, rfl, rfl, h3, rfl, rfl, rfl, rfl⟩ := h.passive (.inl (by simp [hq]))
  rcases a with _ | _ | _ | _ | _ | a <;> simp [loView] at hq ⊢
  · exact ⟨hq.1.symm, hq.2.symm, by simp [pot], .inr ⟨hbc, 1, by omega, b, hb, by simp [loView], rfl,
      by omega, by simp⟩⟩

/-- The loop body of `lo` handles its completed request: the query is answered by a reply, or
the reply has gone and the peer is finished. -/
lemma PairOk.lo_wake (h : PairOk lo hi bc x y tq tr sq sr) (hq : x.2 = .ready) :
    (x.1 = 1 ∨ x.1 = 2) ∧
    pot (if x.1 = 1 then (2, .send hi .reply) else (0, .null)) < pot x ∧
    PairOk lo hi bc (if x.1 = 1 then (2, .send hi .reply) else (0, .null)) y tq
      (tr + if x.1 = 1 then 1 else 0) sq (sr + if x.1 = 1 then 1 else 0) := by
  obtain ⟨hbc, a, ha, b, hb, rfl, rfl, h3, rfl, rfl, rfl, rfl⟩ := h.passive (.inl (by simp [hq]))
  rcases a with _ | _ | _ | _ | _ | a <;> simp [loView] at hq ⊢
  · have hb2 : b ≤ 2 := by omega
    exact ⟨by simp [pot], .inr ⟨hbc, 2, by omega, b, hb, by simp [loView], rfl, by omega,
      by simp [hb2]⟩⟩
  · exact ⟨by simp [pot], .inr ⟨hbc, 4, by omega, b, hb, by simp [loView], rfl, by omega, by simp⟩⟩

/-- The transport completes the query of `hi`. -/
lemma PairOk.hi_sendDone {d : Nat} {t : Tag} (h : PairOk lo hi bc x y tq tr sq sr)
    (hq : y.2 = .send d t) :
    d = lo ∧ t = .query ∧ pot (y.1, .ready) < pot y ∧
      PairOk lo hi bc x (y.1, .ready) tq tr sq sr := by
  obtain ⟨hbc, a, ha, b, hb, rfl, rfl, h3, rfl, rfl, rfl, rfl⟩ := h.passive (.inr (by simp [hq]))
  rcases b with _ | _ | _ | _ | _ | b <;> simp [hiView] at hq ⊢
  · exact ⟨hq.1.symm, hq.2.symm, by simp [pot], .inr ⟨hbc, a, ha, 1, by omega, rfl, by simp [hiView],
      by omega, by simp⟩⟩

/-- The transport delivers the reply to `hi`, once `lo` has sent it. -/
lemma PairOk.hi_recvDone {q : Nat} {t : Tag} (h : PairOk lo hi bc x y tq tr sq sr)
    (hq : y.2 = .recv q t) :
    q = lo ∧ t = .reply ∧ (0 < tr → pot (y.1, .ready) < pot y ∧
      PairOk lo hi bc x (y.1, .ready) tq (tr - 1) sq sr) := by
  obtain ⟨hbc, a, ha, b, hb, rfl, rfl, h3, rfl, rfl, rfl, rfl⟩ := h.passive (.inr (by simp [hq]))
  rcases b with _ | _ | _ | _ | _ | b <;> simp [hiView] at hq ⊢
  · refine ⟨hq.1.symm, hq.2.symm, fun h2 => ?_⟩
    have ha2 : 2 ≤ a := by_contra fun h => by simp [h] at h2
    exact ⟨by simp [pot], .inr ⟨hbc, a, ha, 3, by omega, rfl, by simp [hiView], fun _ => ha2,
      by simp [ha2]⟩⟩

/-- The loop body of `hi` handles its completed request: the query has gone and the reply is
awaited, or the reply is processed and the peer is finished. -/
lemma PairOk.hi_wake (h : PairOk lo hi bc x y tq tr sq sr) (hq : y.2 = .ready) :
    (y.1 = 3 ∨ y.1 = 4) ∧
    pot (if y.1 = 3 then (4, .recv lo .reply) else (0, .null)) < pot y ∧
    PairOk lo hi bc x (if y.1 = 3 then (4, .recv lo .reply) else (0, .null)) tq tr sq sr := by
  obtain ⟨hbc, a, ha, b, hb, rfl, rfl, h3, rfl, rfl, rfl, rfl⟩ := h.passive (.inr (by simp [hq]))
  rcases b with _ | _ | _ | _ | _ | b <;> simp [hiView] at hq ⊢
  · exact ⟨by simp [pot], .inr ⟨hbc, a, ha, 2, by omega, rfl, by simp [hiView], by omega, by simp⟩⟩
  · exact ⟨by simp [pot], .inr ⟨hbc, a, ha, 4, by omega, rfl, by simp [hiView], fun _ => h3 le_rfl,
      by simp [h3 le_rfl]⟩⟩

/-- **Progress.** A pair that is not finished has a completed request to report, a message to
deliver into a posted receive, or a send whose message has been received. -/
lemma PairOk.progress (h : PairOk lo hi bc x y tq tr sq sr) (hne : x.1 ≠ 0 ∨ y.1 ≠ 0) :
    (x.2 = .ready ∧ x.1 ≠ 0) ∨ (y.2 = .ready ∧ y.1 ≠ 0) ∨ (x.2 = .recv hi .query ∧ 0 < tq) ∨
      (y.2 = .recv lo .reply ∧ 0 < tr) ∨ (y.2 = .send lo .query ∧ tq = 0) ∨
      (x.2 = .send hi .reply ∧ tr = 0) := by
  rcases h with ⟨-, rfl, rfl, -⟩ | ⟨-, a, ha, b, hb, rfl, rfl, h3, rfl, rfl, -, -⟩
  · simp at hne
  · rcases a with _ | _ | _ | _ | _ | a <;> rcases b with _ | _ | _ | _ | _ | b <;>
      simp_all [loView, hiView]

/-- A pair sends at most one query and one reply. -/
lemma PairOk.sent_le (h : PairOk lo hi bc x y tq tr sq sr) : sq ≤ 1 ∧ sr ≤ 1 := by
  rcases h with ⟨-, -, -, -, -, rfl, rfl⟩ | ⟨-, a, -, b, -, -, -, -, -, -, rfl, rfl⟩
  · omega
  · split_ifs <;> omega

/-- **The end of a pair.** When both sides are finished, no message is in transit, and a pair
with messages has sent one query and one reply. -/
lemma PairOk.final (h : PairOk lo hi bc x y tq tr sq sr) (hx : x.1 = 0) (hy : y.1 = 0) :
    x.2 = .null ∧ y.2 = .null ∧ tq = 0 ∧ tr = 0 ∧ sq = (if bc = 0 then 0 else 1) ∧
      sr = (if bc = 0 then 0 else 1) := by
  rcases h with ⟨hbc, rfl, rfl, rfl, rfl, rfl, rfl⟩ | ⟨hbc, a, ha, b, hb, rfl, rfl, h3, rfl, rfl, rfl, rfl⟩
  · simp [hbc]
  · rcases a with _ | _ | _ | _ | _ | a <;> rcases b with _ | _ | _ | _ | _ | b <;>
      simp_all [loView, hiView]

end pair

end P4estTnodes
