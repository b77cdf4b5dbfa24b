import P4estTnodes.Network

/-!
# The invariant of the exchange: matching, deadlock freedom and termination

The exchange starts with every process `r < P` in a state that `post_query_reply` leaves
(`Posted`), where `B r q` is the count process `r` holds for `q` and the two counts of each pair
agree. Over every run of `Net.Step` from there one invariant holds (`NetInv`), and from it:

* `netInv_start`, `NetInv.step`: the start satisfies the invariant, and every step keeps it and
  lowers `Net.measure`, so every reachable state satisfies it (`NetInv.reachable`);
* `NetInv.sent_once`: every message sent is the only one of its source, destination and tag,
  and as long as the count its receiver holds for its sender;
* `NetInv.syncStep_of_waiting`: while a process still waits, some step of a transport that never
  buffers is enabled;
* `NetInv.run_le_measure`: a run from a state of the invariant has at most `measure` steps;
* `NetInv.final`: where no such step is enabled, every peer is finished, every counter is `0`, no
  message is in transit, and each pair with messages has sent one query and one reply.

The proof route. Every step changes one peer record of one process (`Net.Touches`), so every
field of the invariant but the pair of that record and process carries over (`NetInv.update`);
on that pair the step is one transition of `PairOk`. Deadlock freedom is `PairOk.progress` on
the pair of an unfinished peer, and the final state is `PairOk.final` on every pair.
-/

namespace P4estTnodes

/-! ## The invariant -/

/-- A process `r < P` during the exchange: its rank, peer records of distinct other ranks below
`P`, one request per record, and every buffer `bufcount` long.
Source: `post_query_reply` (part_000 ll. 979–1034)
Kind: D -/
structure ProcOk (P r : Nat) (m : TnodesMeta) : Prop where
  mpirank : m.mpirank = r
  nodup : (m.peers.map (·.rank)).Nodup
  rank : ∀ j < m.peers.length,
    (m.peers.getD j default).rank ≠ r ∧ (m.peers.getD j default).rank < P
  pereq : m.pereq.length = m.peers.length
  querypos : ∀ j < m.peers.length,
    (m.peers.getD j default).querypos.length = (m.peers.getD j default).bufcount

/-- A change of one peer record that keeps the length of its buffer keeps a process in shape. -/
lemma ProcOk.frame {P r j : Nat} {m m' : TnodesMeta} (h : ProcOk P r m) (hf : m.Frame m' j)
    (hq : (m'.peers.getD j default).querypos.length = (m.peers.getD j default).querypos.length) :
    ProcOk P r m' where
  mpirank := hf.mpirank.trans h.mpirank
  nodup := hf.ranks ▸ h.nodup
  rank i hi := hf.rank_getD i ▸ h.rank i (hf.length ▸ hi)
  pereq := hf.pereq.trans (h.pereq.trans hf.length.symm)
  querypos i hi := by
    rw [hf.bufcount_getD]
    by_cases hij : i = j
    · subst hij; rw [hq]; exact h.querypos i (hf.length ▸ hi)
    · rw [(hf.other i hij).1]; exact h.querypos i (hf.length ▸ hi)

/-- **The invariant of the exchange** on the processes `r < P`, where `B r q` is the count
process `r` holds for `q`: every process is in shape and keeps its counts, every counter
`nwtotal` counts the unfinished peers, every pair is in a state of the pair machine, and every
message sent goes between two processes, a query down or a reply up, as long as the count its
receiver holds for its sender; the messages in transit are among those sent.
Source: `post_query_reply` (part_000 ll. 979–1034), `wait_query_reply` (ll. 1036–1177)
Kind: D -/
structure NetInv (P : Nat) (B : Nat → Nat → Nat) (s : Net) : Prop where
  proc : ∀ r < P, ProcOk P r (s.procs r)
  count : ∀ r < P, ∀ q, ((s.procs r).peerOf q).bufcount = B r q
  nwtotal : ∀ r < P, s.nwtotal r = ((s.procs r).peers.filter (·.done ≠ 0)).length
  pair : ∀ lo hi, lo < hi → hi < P →
    PairOk lo hi (B hi lo) ((s.procs lo).slot hi) ((s.procs hi).slot lo)
      (countMsg s.transit hi lo .query) (countMsg s.transit lo hi .reply)
      (countMsg s.sent hi lo .query) (countMsg s.sent lo hi .reply)
  sent : ∀ m ∈ s.sent, m.src < P ∧ m.dst < P ∧
    (m.tag = .query ∧ m.dst < m.src ∨ m.tag = .reply ∧ m.src < m.dst) ∧
    m.buf.length = B m.dst m.src
  transit : ∀ m ∈ s.transit, m ∈ s.sent

section inv

variable {P : Nat} {B : Nat → Nat → Nat} {s : Net} (hI : NetInv P B s)
include hI

lemma NetInv.bufcount_getD {r j : Nat} (hr : r < P) (hj : j < (s.procs r).peers.length) :
    ((s.procs r).peers.getD j default).bufcount = B r ((s.procs r).peers.getD j default).rank := by
  rw [← hI.count r hr, peerOf_eq_getD_idx, idx_of_rank (hI.proc r hr).nodup hj]

/-- The pair of a record of `r` for a higher rank `q`, seen from `r`. -/
lemma NetInv.pair_lo {r j q : Nat} (hr : r < P) (hj : j < (s.procs r).peers.length)
    (hq : ((s.procs r).peers.getD j default).rank = q) (hlt : r < q) :
    PairOk r q (B q r) (((s.procs r).peers.getD j default).done, (s.procs r).reqAt j)
      ((s.procs q).slot r) (countMsg s.transit q r .query) (countMsg s.transit r q .reply)
      (countMsg s.sent q r .query) (countMsg s.sent r q .reply) := by
  subst hq
  have h := hI.pair r _ hlt ((hI.proc r hr).rank j hj).2
  rwa [slot_rank (hI.proc r hr).nodup hj] at h

/-- The pair of a record of `r` for a lower rank `q`, seen from `r`. -/
lemma NetInv.pair_hi {r j q : Nat} (hr : r < P) (hj : j < (s.procs r).peers.length)
    (hq : ((s.procs r).peers.getD j default).rank = q) (hlt : q < r) :
    PairOk q r (B r q) ((s.procs q).slot r) (((s.procs r).peers.getD j default).done, (s.procs r).reqAt j)
      (countMsg s.transit r q .query) (countMsg s.transit q r .reply)
      (countMsg s.sent r q .query) (countMsg s.sent q r .reply) := by
  subst hq
  have h := hI.pair _ r hlt hr
  rwa [slot_rank (hI.proc r hr).nodup hj] at h

end inv

/-! ## Steps that change one peer record -/

/-- `s'` is `s` with the peer record `j` of process `r` and its request changed (`Frame`), the
buffer keeping its length, the other processes and counters alone, and the messages changed only
between `r` and the rank of that record, with none of those sent lost.
Source: none: what the steps of `Net.Step` share
Kind: D -/
structure Net.Touches (s s' : Net) (r j : Nat) : Prop where
  procs : ∀ r', r' ≠ r → s'.procs r' = s.procs r'
  frame : (s.procs r).Frame (s'.procs r) j
  querypos : ((s'.procs r).peers.getD j default).querypos.length =
    ((s.procs r).peers.getD j default).querypos.length
  nwtotal : ∀ r', r' ≠ r → s'.nwtotal r' = s.nwtotal r'
  count : ∀ a b t, ¬ (a = r ∧ b = ((s.procs r).peers.getD j default).rank ∨
      a = ((s.procs r).peers.getD j default).rank ∧ b = r) →
    countMsg s'.transit a b t = countMsg s.transit a b t ∧
      countMsg s'.sent a b t = countMsg s.sent a b t
  sent : ∀ m ∈ s.sent, m ∈ s'.sent
  transit : ∀ m ∈ s'.transit, m ∈ s.transit ∨ m ∈ s'.sent

section update

variable {P : Nat} {B : Nat → Nat → Nat} {s s' : Net} {r j q : Nat}

/-- A step that changes one record lowers the measure when it lowers that record's potential. -/
lemma Net.Touches.measure_lt (h : s.Touches s' r j) (hr : r < P)
    (hj : j < (s.procs r).peers.length)
    (hlt : pot (((s'.procs r).peers.getD j default).done, (s'.procs r).reqAt j) <
      pot (((s.procs r).peers.getD j default).done, (s.procs r).reqAt j)) :
    s'.measure P < s.measure P := by
  unfold Net.measure
  refine Finset.sum_lt_sum (fun r' _ => ?_) ⟨r, Finset.mem_range.mpr hr, h.frame.sum_pot_lt hj hlt⟩
  by_cases e : r' = r
  · subst e; exact (h.frame.sum_pot_lt hj hlt).le
  · rw [h.procs r' e]

/-- **The frame of a step.** A step that changes the record `j` of process `r`, of rank `q`,
keeps every field of the invariant but the pair of `r` and `q`, given the new counter of `r`,
that every new message is a reply of `r` to `q` as long as the count of `q` for `r`, and the new
state of the pair. -/
lemma NetInv.update (hI : NetInv P B s) (h : s.Touches s' r j) (hr : r < P)
    (hj : j < (s.procs r).peers.length) (hq : ((s.procs r).peers.getD j default).rank = q)
    (hnw : s'.nwtotal r = ((s'.procs r).peers.filter (·.done ≠ 0)).length)
    (hsent : ∀ m ∈ s'.sent, m ∈ s.sent ∨
      m.src = r ∧ m.dst = q ∧ m.tag = .reply ∧ r < q ∧ m.buf.length = B q r)
    (hlo : r < q → PairOk r q (B q r)
      (((s'.procs r).peers.getD j default).done, (s'.procs r).reqAt j) ((s.procs q).slot r)
      (countMsg s'.transit q r .query) (countMsg s'.transit r q .reply)
      (countMsg s'.sent q r .query) (countMsg s'.sent r q .reply))
    (hhi : q < r → PairOk q r (B r q) ((s.procs q).slot r)
      (((s'.procs r).peers.getD j default).done, (s'.procs r).reqAt j)
      (countMsg s'.transit r q .query) (countMsg s'.transit q r .reply)
      (countMsg s'.sent r q .query) (countMsg s'.sent q r .reply)) :
    NetInv P B s' := by
  have hproc : ∀ r' < P, ProcOk P r' (s'.procs r') := fun r' hr' => by
    by_cases e : r' = r
    · subst e; exact (hI.proc r' hr').frame h.frame h.querypos
    · rw [h.procs r' e]; exact hI.proc r' hr'
  have hslot : ∀ a b, ¬ (a = r ∧ b = q) → (s'.procs a).slot b = (s.procs a).slot b :=
    fun a b hab => by
      by_cases e : a = r
      · subst e; exact h.frame.slot_ne hj fun hb => hab ⟨rfl, hb.trans hq⟩
      · rw [h.procs a e]
  have hnew : (s'.procs r).slot q =
      (((s'.procs r).peers.getD j default).done, (s'.procs r).reqAt j) := by
    rw [← hq, ← h.frame.rank_getD]; exact slot_rank (hproc r hr).nodup (h.frame.length ▸ hj)
  have hqr := (hI.proc r hr).rank j hj
  have hc := h.count
  rw [hq] at hqr hc
  refine ⟨hproc, fun r' hr' q' => ?_, fun r' hr' => ?_, fun lo hi hlo' hhi' => ?_,
    fun m hm => ?_, fun m hm => ?_⟩
  · by_cases e : r' = r
    · subst e; rw [h.frame.peerOf_bufcount]; exact hI.count r' hr' q'
    · rw [h.procs r' e]; exact hI.count r' hr' q'
  · by_cases e : r' = r
    · subst e; exact hnw
    · rw [h.nwtotal r' e, h.procs r' e]; exact hI.nwtotal r' hr'
  · by_cases ht : lo = r ∧ hi = q ∨ lo = q ∧ hi = r
    · rcases ht with ⟨rfl, rfl⟩ | ⟨rfl, rfl⟩
      · rw [hnew, hslot hi lo fun e => hqr.1 e.2.symm]; exact hlo hlo'
      · rw [hnew, hslot lo hi fun e => hqr.1 e.1]; exact hhi hlo'
    · have h1 := hc hi lo .query (by omega)
      have h2 := hc lo hi .reply (by omega)
      rw [hslot lo hi (by omega), hslot hi lo (by omega), h1.1, h1.2, h2.1, h2.2]
      exact hI.pair lo hi hlo' hhi'
  · rcases hsent m hm with hm | ⟨hs, hd, ht, hlt, hl⟩
    · exact hI.sent m hm
    · subst hs hd; exact ⟨hr, hqr.2, .inr ⟨ht, hlt⟩, hl⟩
  · rcases h.transit m hm with hm | hm
    · exact h.sent m (hI.transit m hm)
    · exact hm

end update

/-! ## The steps -/

section steps

variable {P : Nat} {B : Nat → Nat → Nat} {s : Net} {r j : Nat} (hI : NetInv P B s)
include hI

lemma NetInv.index_lt (hr : r < P) (hq : (s.procs r).reqAt j ≠ .null) :
    j < (s.procs r).peers.length :=
  (hI.proc r hr).pereq ▸ lt_of_reqAt_ne hq

/-- **The transport completes a send.** -/
lemma NetInv.sendDone {d : Nat} {t : Tag} (hr : r < P) (hq : (s.procs r).reqAt j = .send d t) :
    NetInv P B (s.setProc r ((s.procs r).setReq j .ready)) ∧
      (s.setProc r ((s.procs r).setReq j .ready)).measure P < s.measure P := by
  have hj := hI.index_lt hr (by simp [hq] : (s.procs r).reqAt j ≠ .null)
  have ht : s.Touches (s.setProc r ((s.procs r).setReq j .ready)) r j :=
    ⟨fun r' e => by simp [e], by simpa using frame_setReq (s.procs r) j .ready, by simp,
      fun _ _ => rfl, fun _ _ _ _ => ⟨rfl, rfl⟩, fun _ h => h, fun _ h => .inl h⟩
  have hnew : ((((s.setProc r ((s.procs r).setReq j .ready)).procs r).peers.getD j default).done,
      ((s.setProc r ((s.procs r).setReq j .ready)).procs r).reqAt j) =
      (((s.procs r).peers.getD j default).done, .ready) := by
    simp [reqAt_setReq, (hI.proc r hr).pereq, hj]
  have hnw := hI.nwtotal r hr
  obtain ⟨q, hq'⟩ : ∃ q, ((s.procs r).peers.getD j default).rank = q := ⟨_, rfl⟩
  have hne : r ≠ q := hq' ▸ ((hI.proc r hr).rank j hj).1.symm
  rcases lt_or_gt_of_ne hne with hlt | hlt
  · obtain ⟨-, -, hpot, hok⟩ := (hI.pair_lo hr hj hq' hlt).lo_sendDone hq
    exact ⟨hI.update ht hr hj hq' (by simpa using hnw) (fun m hm => .inl hm)
      (fun _ => by rwa [hnew]) (fun h => absurd h (by omega)), ht.measure_lt hr hj (by rwa [hnew])⟩
  · obtain ⟨-, -, hpot, hok⟩ := (hI.pair_hi hr hj hq' hlt).hi_sendDone hq
    exact ⟨hI.update ht hr hj hq' (by simpa using hnw) (fun m hm => .inl hm)
      (fun h => absurd h (by omega)) (fun _ => by rwa [hnew]), ht.measure_lt hr hj (by rwa [hnew])⟩

/-- A posted receive of `r` is for the rank of its record. -/
lemma NetInv.recv_src {a : Nat} {t : Tag} (hr : r < P) (hj : j < (s.procs r).peers.length)
    (hq : (s.procs r).reqAt j = .recv a t) : a = ((s.procs r).peers.getD j default).rank := by
  rcases lt_or_gt_of_ne ((hI.proc r hr).rank j hj).1 with hlt | hlt
  · exact ((hI.pair_hi hr hj rfl hlt).hi_recvDone hq).1
  · exact ((hI.pair_lo hr hj rfl hlt).lo_recvDone hq).1

/-- **The transport delivers a message** into a posted receive of its source and tag. -/
lemma NetInv.recvDone {m : Msg} (hr : r < P) (hm : m ∈ s.transit) (hd : m.dst = r)
    (hq : (s.procs r).reqAt j = .recv m.src m.tag) :
    NetInv P B { s.setProc r (((s.procs r).setQuerypos j m.buf).setReq j .ready) with
      transit := s.transit.erase m } ∧
    Net.measure P { s.setProc r (((s.procs r).setQuerypos j m.buf).setReq j .ready) with
      transit := s.transit.erase m } < s.measure P := by
  have hj := hI.index_lt hr (by simp [hq] : (s.procs r).reqAt j ≠ .null)
  obtain ⟨q, hq'⟩ : ∃ q, ((s.procs r).peers.getD j default).rank = q := ⟨_, rfl⟩
  have hsrc : m.src = q := (hI.recv_src hr hj hq).trans hq'
  have hne : r ≠ q := hq' ▸ ((hI.proc r hr).rank j hj).1.symm
  have herase : ∀ a b t, countMsg (s.transit.erase m) a b t =
      countMsg s.transit a b t - if m.src = a ∧ m.dst = b ∧ m.tag = t then 1 else 0 :=
    fun a b t => by have := countMsg_erase hm a b t; omega
  have e1 : countMsg (s.transit.erase m) q r m.tag = countMsg s.transit q r m.tag - 1 := by
    rw [herase, if_pos ⟨hsrc, hd, rfl⟩]
  have e2 : ∀ t, countMsg (s.transit.erase m) r q t = countMsg s.transit r q t := fun t => by
    rw [herase, if_neg fun e => hne (e.1.symm.trans hsrc), Nat.sub_zero]
  have hlen : m.buf.length = ((s.procs r).peers.getD j default).querypos.length := by
    rw [(hI.sent m (hI.transit m hm)).2.2.2, (hI.proc r hr).querypos j hj,
      hI.bufcount_getD hr hj, hd, hsrc, hq']
  have ht : s.Touches { s.setProc r (((s.procs r).setQuerypos j m.buf).setReq j .ready) with
      transit := s.transit.erase m } r j := by
    refine ⟨fun r' e => by simp [e], by simpa using frame_setQuerypos (s.procs r) j m.buf .ready,
      ?_, fun _ _ => rfl, fun a b t hab => ⟨?_, rfl⟩, fun _ h => h,
      fun _ h => .inl (List.mem_of_mem_erase h)⟩
    · simp only [Net.setProc_procs, Function.update_same, setReq_peers]
      rw [setQuerypos_getD, if_pos ⟨rfl, hj⟩]; exact hlen
    rw [hq'] at hab
    rw [herase, if_neg (by rintro ⟨rfl, rfl, -⟩; exact hab (.inr ⟨hsrc, hd⟩)), Nat.sub_zero]
  have hdone : ((((s.procs r).setQuerypos j m.buf).setReq j .ready).peers.getD j default).done =
      ((s.procs r).peers.getD j default).done := by
    rw [setReq_peers, setQuerypos_getD, if_pos ⟨rfl, hj⟩]
  have hnew : ((((s.setProc r (((s.procs r).setQuerypos j m.buf).setReq j .ready)).procs r).peers.getD
      j default).done, ((s.setProc r (((s.procs r).setQuerypos j m.buf).setReq j .ready)).procs r).reqAt j) =
      (((s.procs r).peers.getD j default).done, .ready) := by
    simp only [Net.setProc_procs, Function.update_same, hdone, reqAt_setReq, setQuerypos_pereq,
      (hI.proc r hr).pereq, hj, and_self, if_true]
  have hnw : s.nwtotal r = ((((s.procs r).setQuerypos j m.buf).setReq j .ready).peers.filter
      (·.done ≠ 0)).length := by
    have := (frame_setQuerypos (s.procs r) j m.buf .ready).count_done hj
    rw [hdone] at this
    rw [hI.nwtotal r hr]; omega
  rcases lt_or_gt_of_ne hne with hlt | hlt
  · obtain ⟨-, htag, -, hpot, hok⟩ := (hI.pair_lo hr hj hq' hlt).lo_recvDone hq
    rw [htag] at e1
    refine ⟨hI.update ht hr hj hq' (by simpa using hnw) (fun m hm => .inl hm) (fun _ => ?_)
      (fun h => absurd h (by omega)), ht.measure_lt hr hj (by rwa [hnew])⟩
    show PairOk r q (B q r) _ _ (countMsg (s.transit.erase m) q r .query)
      (countMsg (s.transit.erase m) r q .reply) _ _
    rwa [hnew, e1, e2]
  · obtain ⟨-, htag, hk⟩ := (hI.pair_hi hr hj hq' hlt).hi_recvDone hq
    have htr : 0 < countMsg s.transit q r .reply := by
      have := countMsg_pos hm; rwa [hsrc, hd, htag] at this
    obtain ⟨hpot, hok⟩ := hk htr
    rw [htag] at e1
    refine ⟨hI.update ht hr hj hq' (by simpa using hnw) (fun m hm => .inl hm)
      (fun h => absurd h (by omega)) (fun _ => ?_), ht.measure_lt hr hj (by rwa [hnew])⟩
    show PairOk q r (B r q) _ _ (countMsg (s.transit.erase m) r q .query)
      (countMsg (s.transit.erase m) q r .reply) _ _
    rwa [hnew, e1, e2]

/-- **The loop body handles a completed request**: a lower process posts its reply or finishes
the peer, a higher process awaits the reply or finishes the peer. -/
lemma NetInv.wakeOne (hB : ∀ lo hi, lo < hi → hi < P → B hi lo = B lo hi) (hr : r < P)
    (hq : (s.procs r).reqAt j = .ready) :
    NetInv P B (s.wakeOne r j) ∧ (s.wakeOne r j).measure P < s.measure P := by
  have hj := hI.index_lt hr (by simp [hq] : (s.procs r).reqAt j ≠ .null)
  have hjq : j < (s.procs r).pereq.length := (hI.proc r hr).pereq ▸ hj
  obtain ⟨-, -, -, -, -, hqpl, hout⟩ := waitReport_spec (s.procs r) hj hjq
  have hpost := waitReport_postedMsg (s.procs r) hj hjq r
  rw [(hI.proc r hr).mpirank] at hout hpost
  obtain ⟨q, hq'⟩ : ∃ q, ((s.procs r).peers.getD j default).rank = q := ⟨_, rfl⟩
  obtain ⟨hne, hqP⟩ : q ≠ r ∧ q < P := hq' ▸ (hI.proc r hr).rank j hj
  rw [hq'] at hpost
  have hprocs : (s.wakeOne r j).procs r = (waitReport (s.procs r) j).1 := by simp [Net.wakeOne]
  have hcount : ∀ (l : List Msg) a b t,
      countMsg (l ++ (waitReport (s.procs r) j).1.postedMsg r j) a b t = countMsg l a b t +
        if r < q ∧ ((s.procs r).peers.getD j default).done = 1 ∧ r = a ∧ q = b ∧ Tag.reply = t
        then 1 else 0 := fun l a b t => by
    rw [hpost, countMsg_append]
    by_cases hc : r < q ∧ ((s.procs r).peers.getD j default).done = 1
    · rw [if_pos hc, countMsg_singleton]; simp only [hc, true_and]
    · rw [if_neg hc, countMsg_nil, if_neg fun h => hc ⟨h.1, h.2.1⟩]
  have ht : s.Touches (s.wakeOne r j) r j := by
    refine ⟨fun r' e => by simp [Net.wakeOne, e], by simpa [hprocs] using frame_waitReport _ hj hjq,
      by rw [hprocs]; exact hqpl, fun r' e => by simp [Net.wakeOne, e], fun a b t hab => ?_,
      fun m hm => List.mem_append_left _ hm, fun m hm => ?_⟩
    · rw [hq'] at hab
      have hn : ¬ (r < q ∧ ((s.procs r).peers.getD j default).done = 1 ∧ r = a ∧ q = b ∧
          Tag.reply = t) := fun h => hab (.inl ⟨h.2.2.1.symm, h.2.2.2.1.symm⟩)
      refine ⟨?_, ?_⟩ <;> simp only [Net.wakeOne, hcount, if_neg hn, add_zero]
    · rcases List.mem_append.mp hm with h | h
      · exact .inl h
      · exact .inr (List.mem_append_right _ h)
  have hold : ((s.procs r).peers.getD j default).done ≠ 0 := by
    rcases lt_or_gt_of_ne hne with hlt | hlt
    · have := ((hI.pair_hi hr hj hq' hlt).hi_wake hq).1; omega
    · have := ((hI.pair_lo hr hj hq' hlt).lo_wake hq).1; omega
  have hnw : (s.wakeOne r j).nwtotal r =
      (((s.wakeOne r j).procs r).peers.filter (·.done ≠ 0)).length := by
    have hc := (frame_waitReport _ hj hjq).count_done hj
    have hfin := waitOutcome_fin r ((s.procs r).peers.getD j default)
    rw [← hout] at hfin
    dsimp only at hfin
    simp only [Net.wakeOne, Function.update_same, hI.nwtotal r hr, hfin, decide_eq_true_eq]
    rw [if_pos hold] at hc
    by_cases hd0 : ((waitReport (s.procs r) j).1.peers.getD j default).done = 0
    · rw [if_pos hd0]; rw [if_neg (not_not.mpr hd0)] at hc; omega
    · rw [if_neg hd0]; rw [if_pos hd0] at hc; omega
  have hsent : ∀ m ∈ (s.wakeOne r j).sent, m ∈ s.sent ∨
      m.src = r ∧ m.dst = q ∧ m.tag = .reply ∧ r < q ∧ m.buf.length = B q r := fun m hm => by
    rcases List.mem_append.mp hm with h | h
    · exact .inl h
    · rw [hpost] at h
      split_ifs at h with hc
      · rw [List.mem_singleton] at h
        subst h
        refine .inr ⟨rfl, rfl, rfl, hc.1, ?_⟩
        rw [hqpl, (hI.proc r hr).querypos j hj, hI.bufcount_getD hr hj, hq']
        exact (hB r q hc.1 hqP).symm
      · exact absurd h (List.not_mem_nil _)
  rcases lt_or_gt_of_ne hne with hlt | hlt
  · obtain ⟨-, hpot, hok⟩ := (hI.pair_hi hr hj hq' hlt).hi_wake hq
    have hnew : ((((s.wakeOne r j).procs r).peers.getD j default).done,
        ((s.wakeOne r j).procs r).reqAt j) =
        if ((s.procs r).peers.getD j default).done = 3 then (4, .recv q .reply) else (0, .null) := by
      rw [hprocs]
      simp only [waitOutcome, hq', gt_iff_lt, not_lt.mpr hlt.le, if_false] at hout
      split_ifs at hout ⊢ <;> simp only [Prod.mk.injEq] at hout <;> rw [hout.1, hout.2.1]
    refine ⟨hI.update ht hr hj hq' hnw hsent (fun h => absurd h (by omega)) (fun _ => ?_),
      ht.measure_lt hr hj (by rw [hnew]; exact hpot)⟩
    rw [hnew]
    dsimp only at hok
    simp only [Net.wakeOne, hcount, not_lt.mpr hlt.le, false_and, if_false, add_zero]
    exact hok
  · obtain ⟨-, hpot, hok⟩ := (hI.pair_lo hr hj hq' hlt).lo_wake hq
    have hnew : ((((s.wakeOne r j).procs r).peers.getD j default).done,
        ((s.wakeOne r j).procs r).reqAt j) =
        if ((s.procs r).peers.getD j default).done = 1 then (2, .send q .reply) else (0, .null) := by
      rw [hprocs]
      simp only [waitOutcome, hq', gt_iff_lt, hlt, if_true] at hout
      split_ifs at hout ⊢ <;> simp only [Prod.mk.injEq] at hout <;> rw [hout.1, hout.2.1]
    refine ⟨hI.update ht hr hj hq' hnw hsent (fun _ => ?_) (fun h => absurd h (by omega)),
      ht.measure_lt hr hj (by rw [hnew]; exact hpot)⟩
    rw [hnew]
    dsimp only at hok
    simp only [Net.wakeOne, hcount, hlt, hne, Ne.symm hne, true_and, false_and, and_false,
      and_true, if_false, add_zero]
    exact hok

end steps

/-! ## Runs -/

section runs

variable {P : Nat} {B : Nat → Nat → Nat} (hB : ∀ lo hi, lo < hi → hi < P → B hi lo = B lo hi)
include hB

/-- **One pass of the loop of `wait_query_reply`**: the body on each reported index in turn
keeps the invariant and lowers the measure by one at least per index. -/
lemma NetInv.wake {r : Nat} (hr : r < P) : ∀ {W : List Nat} {s : Net}, NetInv P B s → W.Nodup →
    (∀ j ∈ W, (s.procs r).reqAt j = .ready) →
    NetInv P B (s.wake r W) ∧ (s.wake r W).measure P + W.length ≤ s.measure P
  | [], _, hI, _, _ => ⟨hI, le_refl _⟩
  | j :: W, s, hI, hnd, hW => by
    rw [List.nodup_cons] at hnd
    have hq := hW j (List.mem_cons_self _ _)
    have hj := hI.index_lt hr (by simp [hq] : (s.procs r).reqAt j ≠ .null)
    obtain ⟨hI', hlt⟩ := hI.wakeOne hB hr hq
    obtain ⟨h1, h2⟩ := NetInv.wake hr hI' hnd.2 fun i hi => by
      have hf := frame_waitReport (s.procs r) hj ((hI.proc r hr).pereq ▸ hj)
      simp only [Net.wakeOne, Function.update_same]
      rw [(hf.other i fun e => hnd.1 (e ▸ hi)).2]
      exact hW i (List.mem_cons_of_mem _ hi)
    rw [Net.wake_cons]
    exact ⟨h1, by simp only [List.length_cons]; omega⟩

/-- **Every step keeps the invariant and lowers the measure.** -/
lemma NetInv.step {s s' : Net} (hI : NetInv P B s) (h : Net.Step P s s') :
    NetInv P B s' ∧ s'.measure P < s.measure P := by
  cases h with
  | sendDone hr hq => exact hI.sendDone hr hq
  | recvDone hr hm hd hq => exact hI.recvDone hr hm hd hq
  | wake hr _ hW hnd hq =>
    obtain ⟨h1, h2⟩ := hI.wake hB hr hnd hq
    exact ⟨h1, by have := List.length_pos.mpr hW; omega⟩

/-- Every state reachable from a state of the invariant satisfies it. -/
lemma NetInv.reachable {s0 s : Net} (h0 : NetInv P B s0) (h : Net.Reachable P s0 s) :
    NetInv P B s := by
  induction h with
  | init => exact h0
  | step _ hs ih => exact (ih.step hB hs).1

/-- **Termination.** A run from a state of the invariant has at most `measure` steps. -/
lemma NetInv.run_le_measure {s t : Net} {n : Nat} (hI : NetInv P B s) (h : Net.Run P s n t) :
    n ≤ s.measure P := by
  induction h with
  | refl => exact Nat.zero_le _
  | cons hs _ ih =>
    obtain ⟨h1, h2⟩ := hI.step hB hs
    have := ih h1
    omega

end runs

/-! ## Deadlock freedom and the end of the exchange -/

section progress

variable {P : Nat} {B : Nat → Nat → Nat} {s : Net} (hI : NetInv P B s)
include hI

/-- A process with an unfinished peer still waits. -/
lemma NetInv.nwtotal_pos {r q : Nat} (hr : r < P) (hd : ((s.procs r).slot q).1 ≠ 0) :
    0 < s.nwtotal r := by
  rw [hI.nwtotal r hr]
  have hlt : (s.procs r).idx q < (s.procs r).peers.length := by
    by_contra h
    exact hd (by rw [TnodesMeta.slot, List.getD_eq_default _ _ (not_lt.mp h)]; rfl)
  have hmem : (s.procs r).peers.getD ((s.procs r).idx q) default ∈ (s.procs r).peers := by
    rw [List.getD_eq_getElem _ _ hlt]; exact List.getElem_mem hlt
  exact List.length_pos_of_mem (List.mem_filter.mpr ⟨hmem, decide_eq_true hd⟩)

/-- **Progress on one pair.** A pair with an unfinished side enables a step of a transport that
never buffers. -/
lemma NetInv.syncStep_of_pair {lo hi : Nat} (hlo : lo < hi) (hhi : hi < P)
    (hne : ((s.procs lo).slot hi).1 ≠ 0 ∨ ((s.procs hi).slot lo).1 ≠ 0) :
    ∃ s', Net.SyncStep P s s' := by
  have hlP : lo < P := hlo.trans hhi
  rcases (hI.pair lo hi hlo hhi).progress hne with
    ⟨hx, hx0⟩ | ⟨hy, hy0⟩ | ⟨hx, htq⟩ | ⟨hy, htr⟩ | ⟨hy, htq⟩ | ⟨hx, htr⟩
  · exact ⟨_, .wake hlP (hI.nwtotal_pos hlP hx0) (List.cons_ne_nil _ _) (List.nodup_singleton _)
      fun j hj => List.mem_singleton.mp hj ▸ hx⟩
  · exact ⟨_, .wake hhi (hI.nwtotal_pos hhi hy0) (List.cons_ne_nil _ _) (List.nodup_singleton _)
      fun j hj => List.mem_singleton.mp hj ▸ hy⟩
  · obtain ⟨m, hm, hs, hd, ht⟩ := exists_of_countMsg_pos htq
    exact ⟨_, .recvDone hlP hm hd (by rw [hs, ht]; exact hx)⟩
  · obtain ⟨m, hm, hs, hd, ht⟩ := exists_of_countMsg_pos htr
    exact ⟨_, .recvDone hhi hm hd (by rw [hs, ht]; exact hy)⟩
  · exact ⟨_, .sendDone hhi hy htq⟩
  · exact ⟨_, .sendDone hlP hx htr⟩

/-- **Deadlock freedom.** While a process still waits for a peer, some step of a transport
that never buffers is enabled. -/
lemma NetInv.syncStep_of_waiting {r : Nat} (hr : r < P) (hw : 0 < s.nwtotal r) :
    ∃ s', Net.SyncStep P s s' := by
  rw [hI.nwtotal r hr] at hw
  obtain ⟨p, hp⟩ := List.exists_mem_of_length_pos hw
  rw [List.mem_filter, decide_eq_true_eq] at hp
  obtain ⟨j, hj, hpj⟩ := List.getElem_of_mem hp.1
  rw [← List.getD_eq_getElem _ default hj] at hpj
  subst hpj
  have hs := slot_rank (hI.proc r hr).nodup hj
  obtain ⟨hne, hqP⟩ := (hI.proc r hr).rank j hj
  rcases lt_or_gt_of_ne hne with hlt | hlt
  · exact hI.syncStep_of_pair hlt hr (.inr (by rw [hs]; exact hp.2))
  · exact hI.syncStep_of_pair hlt hqP (.inl (by rw [hs]; exact hp.2))

/-- **The end of the exchange.** In a state where no step of a transport that never buffers is
enabled, every counter is `0`, every peer is finished with no request, no message is in
transit, and each pair has sent one query and one reply if it has messages and none otherwise. -/
lemma NetInv.final (hstuck : ∀ s', ¬ Net.SyncStep P s s') :
    (∀ r < P, s.nwtotal r = 0 ∧ ∀ j < (s.procs r).peers.length,
      ((s.procs r).peers.getD j default).done = 0 ∧ (s.procs r).reqAt j = .null) ∧
    s.transit = [] ∧
    ∀ lo hi, lo < hi → hi < P → countMsg s.sent hi lo .query = (if B hi lo = 0 then 0 else 1) ∧
      countMsg s.sent lo hi .reply = (if B hi lo = 0 then 0 else 1) := by
  have hnw : ∀ r < P, s.nwtotal r = 0 := fun r hr =>
    Nat.eq_zero_of_not_pos fun h => (hI.syncStep_of_waiting hr h).elim hstuck
  have hslot : ∀ r < P, ∀ q, ((s.procs r).slot q).1 = 0 := fun r hr q =>
    by_contra fun h => absurd (hnw r hr) (hI.nwtotal_pos hr h).ne'
  have hfin := fun lo hi (hlo : lo < hi) (hhi : hi < P) =>
    (hI.pair lo hi hlo hhi).final (hslot lo (hlo.trans hhi) hi) (hslot hi hhi lo)
  refine ⟨fun r hr => ⟨hnw r hr, fun j hj => ?_⟩, ?_, fun lo hi hlo hhi =>
    ⟨(hfin lo hi hlo hhi).2.2.2.2.1, (hfin lo hi hlo hhi).2.2.2.2.2⟩⟩
  · have hs := slot_rank (hI.proc r hr).nodup hj
    have h0 := hslot r hr ((s.procs r).peers.getD j default).rank
    rw [hs] at h0
    obtain ⟨hne, hqP⟩ := (hI.proc r hr).rank j hj
    rcases lt_or_gt_of_ne hne with hlt | hlt
    · have := (hfin _ r hlt hr).2.1; rw [hs] at this; exact ⟨h0, this⟩
    · have := (hfin r _ hlt hqP).1; rw [hs] at this; exact ⟨h0, this⟩
  · refine List.eq_nil_iff_forall_not_mem.mpr fun m hm => ?_
    obtain ⟨hs, hd, hshape, -⟩ := hI.sent m (hI.transit m hm)
    have hpos := countMsg_pos hm
    rcases hshape with ⟨ht, hlt⟩ | ⟨ht, hlt⟩
    · have := (hfin m.dst m.src hlt hs).2.2.1; rw [ht] at hpos; omega
    · have := (hfin m.src m.dst hlt hd).2.2.2.1; rw [ht] at hpos; omega

/-- **Every message is sent once.** A message sent is the only one of its source, destination
and tag, and as long as the count its receiver holds for its sender. -/
lemma NetInv.sent_once {m : Msg} (hm : m ∈ s.sent) :
    countMsg s.sent m.src m.dst m.tag = 1 ∧ m.buf.length = B m.dst m.src := by
  obtain ⟨hs, hd, hshape, hlen⟩ := hI.sent m hm
  have hpos := countMsg_pos hm
  refine ⟨?_, hlen⟩
  rcases hshape with ⟨ht, hlt⟩ | ⟨ht, hlt⟩
  · have := (hI.pair _ _ hlt hs).sent_le.1; rw [ht] at hpos ⊢; omega
  · have := (hI.pair _ _ hlt hd).sent_le.2; rw [ht] at hpos ⊢; omega

end progress

/-! ## The start of the exchange -/

/-- A process `r` as `post_query_reply` leaves it, holding the counts `B r`: in shape, with a
ghost layer, one request per peer (none without messages, the receive of the query from a higher
peer, the send of the query to a lower one), the peers without messages counted in
`emptypeers`, and every peer in its first state.
Source: `post_query_reply` (part_000 ll. 979–1034)
Kind: D -/
structure Posted (P r : Nat) (B : Nat → Nat → Nat) (m : TnodesMeta) : Prop where
  proc : ProcOk P r m
  count : ∀ q, (m.peerOf q).bufcount = B r q
  ghost : m.ghost ≠ none
  pereq : m.pereq = m.peers.map (postedReq r)
  emptypeers : m.emptypeers = (m.peers.filter (·.bufcount = 0)).length
  done : ∀ j < m.peers.length, (m.peers.getD j default).done =
    if (m.peers.getD j default).bufcount = 0 then 0
    else if (m.peers.getD j default).rank > r then 1 else 3

section start

variable {P r : Nat} {B : Nat → Nat → Nat} {m : TnodesMeta} (h : Posted P r B m)
include h

/-- Before the exchange, the slot of rank `q` is empty without messages, receives the query of
a higher rank, and sends the query to a lower one. -/
lemma Posted.slot (q : Nat) : m.slot q =
    if B r q = 0 then (0, .null) else if q > r then (1, .recv q .query) else (3, .send q .query) := by
  rw [← h.count q, peerOf_eq_getD_idx, TnodesMeta.slot]
  by_cases hlt : m.idx q < m.peers.length
  · have hreq : m.reqAt (m.idx q) = postedReq r (m.peers.getD (m.idx q) default) := by
      rw [TnodesMeta.reqAt, h.pereq, List.getD_eq_getElem _ _ (by simpa using hlt),
        List.getElem_map, List.getD_eq_getElem _ _ hlt]
    rw [hreq, h.done _ hlt, postedReq, rank_idx hlt]
    split_ifs <;> rfl
  · have hge := not_lt.mp hlt
    rw [List.getD_eq_default _ _ hge, TnodesMeta.reqAt,
      List.getD_eq_default _ _ (by rw [h.pereq, List.length_map]; exact hge)]
    rfl

/-- The counter `wait_query_reply` starts with counts the peers with messages. -/
lemma Posted.nwInit : nwInit m = (m.peers.filter (·.done ≠ 0)).length := by
  by_cases hp : m.peers = []
  · simp [P4estTnodes.nwInit, hp]
  rw [P4estTnodes.nwInit, if_neg (by simp [h.ghost, hp]), h.emptypeers,
    List.length_eq_length_filter_add (fun p : Peer => decide (p.bufcount = 0)), Nat.add_sub_cancel_left]
  congr 1
  refine List.filter_congr fun p hp => ?_
  obtain ⟨j, hj, rfl⟩ := List.getElem_of_mem hp
  have hd := h.done j hj
  rw [List.getD_eq_getElem _ _ hj] at hd
  rw [hd]
  split_ifs <;> simp_all

/-- Before the exchange, the queries in transit from `a` to a lower `b`: one if `a` holds
messages for `b`. -/
lemma Posted.countP_query (b : Nat) :
    m.peers.countP (fun p => decide ((p.bufcount ≠ 0 ∧ p.rank < r) ∧ p.rank = b)) =
      if b < r ∧ B r b ≠ 0 then 1 else 0 := by
  rw [countP_rank (fun p => p.bufcount ≠ 0 ∧ p.rank < r) b h.proc.nodup]
  show (if b ∈ m.peers.map (·.rank) ∧ ((m.peerOf b).bufcount ≠ 0 ∧ (m.peerOf b).rank < r)
    then 1 else 0) = _
  rw [h.count b]
  by_cases hb : b ∈ m.peers.map (·.rank)
  · have hrk : (m.peerOf b).rank = b := by
      rw [peerOf_eq_getD_idx]
      exact rank_idx (by simpa [TnodesMeta.idx] using List.indexOf_lt_length.mpr hb)
    simp only [hb, hrk, true_and, and_comm]
  · have h0 : B r b = 0 := by
      rw [← h.count b, peerOf_eq_getD_idx, List.getD_eq_default]
      · rfl
      · simpa [TnodesMeta.idx] using (List.indexOf_eq_length.mpr hb).ge
    simp [hb, h0]

end start

/-- The queries `post_query_reply` posts: one from `a` to a lower `b` when `a` holds messages
for `b`. -/
lemma countMsg_initMsgs {P : Nat} {B : Nat → Nat → Nat} {ms : Nat → TnodesMeta}
    (hpost : ∀ r < P, Posted P r B (ms r)) (a b : Nat) (t : Tag) :
    countMsg (initMsgs P ms) a b t = if a < P ∧ t = .query ∧ b < a ∧ B a b ≠ 0 then 1 else 0 := by
  rw [initMsgs, countMsg_flatMap (fun r m hm => by obtain ⟨p, -, rfl⟩ := List.mem_map.mp hm; rfl)
    (List.nodup_range P)]
  simp only [List.mem_range]
  by_cases ha : a < P
  · rw [if_pos ha, countMsg, List.countP_map, List.countP_filter]
    by_cases ht : t = .query
    · subst ht
      simp only [ha, true_and]
      rw [← (hpost a ha).countP_query b, (hpost a ha).proc.mpirank]
      refine List.countP_congr fun p _ => ?_
      simp only [Function.comp, Bool.and_eq_true, decide_eq_true_eq]
      tauto
    · rw [List.countP_eq_zero.mpr fun p _ hp => ht (by simp at hp; exact hp.1.2.symm)]
      simp [ht]
  · simp [ha]

/-- **The start satisfies the invariant**, when the processes have posted their requests and
the two counts of each pair agree. -/
lemma netInv_start {P : Nat} {B : Nat → Nat → Nat} {ms : Nat → TnodesMeta}
    (hpost : ∀ r < P, Posted P r B (ms r)) (hB : ∀ lo hi, lo < hi → hi < P → B hi lo = B lo hi) :
    NetInv P B (Net.start P ms) where
  proc r hr := (hpost r hr).proc
  count r hr := (hpost r hr).count
  nwtotal r hr := (hpost r hr).nwInit
  pair lo hi hlo hhi := by
    have hlP := hlo.trans hhi
    simp only [Net.start, (hpost lo hlP).slot, (hpost hi hhi).slot, countMsg_initMsgs hpost,
      hB lo hi hlo hhi]
    simpa [hlo, hhi, hlP, not_lt.mpr hlo.le] using pairOk_init lo hi (B lo hi)
  sent m hm := by
    obtain ⟨r, hr, hm⟩ := List.mem_flatMap.mp hm
    obtain ⟨p, hp, rfl⟩ := List.mem_map.mp hm
    rw [List.mem_filter, decide_eq_true_eq] at hp
    rw [List.mem_range] at hr
    obtain ⟨j, hj, rfl⟩ := List.getElem_of_mem hp.1
    have hpost' := hpost r hr
    rw [hpost'.proc.mpirank] at hp
    rw [← List.getD_eq_getElem _ default hj] at hp ⊢
    refine ⟨hr, (hpost'.proc.rank j hj).2, .inl ⟨rfl, hp.2.2⟩, ?_⟩
    dsimp only
    rw [hpost'.proc.querypos j hj, ← hB _ _ hp.2.2 hr, ← hpost'.count, peerOf_eq_getD_idx,
      idx_of_rank hpost'.proc.nodup hj]
  transit _ hm := hm

end P4estTnodes
