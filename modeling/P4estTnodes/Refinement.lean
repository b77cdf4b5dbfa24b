import P4estTnodes.ReplyOrder
import P4estTnodes.Protocol

/-!
# Every run of the exchange computes the reference run

The processes exchange their queries and replies in whatever order the transport and
`MPI_Waitsome` choose (`Net.Step`). This file proves that the order changes nothing: every run
ends on every process in the state of the sequential reference run `System.exchange`, with all
requests freed (`exchange_refinement`, whose conclusion `ExchangeRefinement` collects):

* `Refines.reachable`: over every run, every message carries the buffer the reference run sends
  (`System.message`), and every process is in `Progress`: its state is the reference receive loop
  over the replies it has processed, with each peer record in one of the stages of `RecStage`;
* `Progress.complete`: a process whose peers are all in state `0` is in the state of the
  reference run;
* `Net.Reachable.complete`: from every reachable state some run completes the exchange.

The proof route. Each step of the network is one transition of `RecStage` on one peer record
(`Progress.sendDone`, `Progress.recvDone`, `Progress.waitReport`); processing a reply is one more
step of the reference receive loop, on another order of the replies
(`processReply_withPeers`). At the end, the receive loop in completion order and the reference
run in `sortp` order agree (`Received.eq`), and so do the records (`exchange_getD`). The
hypotheses on one process (`ExchangeReady`) hold for consistent views of one mesh
(`ConsistentViews.exchangeReady`).
-/

namespace P4estTnodes

/-! ## The reference run, record by record -/

/-- The buffer the reference run sends from `src` to `dst` with tag `t`.
Source: `post_query_reply` (part_000 ll. 1021–1026), `wait_query_reply` (ll. 1081–1108)
Kind: D -/
def System.message (ms : Nat → TnodesMeta) (src dst : Nat) : Tag → List Int
  | .query => System.query ms src dst
  | .reply => System.reply ms src dst

/-- The record of the peer at index `j` of process `r` as `sort_peers` leaves it.
Source: `post_query_reply` (part_000 ll. 999–1033), `sort_peers` (ll. 922–977)
Kind: D -/
def postRecord (ms : Nat → TnodesMeta) (r j : Nat) : Peer := (System.phase2 ms r).peers.getD j default

/-- **The stages of one peer record** of process `r` during the exchange, with its request: the
record of a higher peer receives the query, sends the reply and is answered; the record of a lower
peer sends the query, receives the reply and is processed; a record without messages stays idle.
Source: `post_query_reply` (part_000 ll. 999–1033), `wait_query_reply` (ll. 1070–1166)
Kind: D -/
inductive RecStage (ms : Nat → TnodesMeta) (r j : Nat) : Peer → Req → Prop
  | idle : (postRecord ms r j).bufcount = 0 → RecStage ms r j (postRecord ms r j) .null
  | queryPosted : AwaitsQuery r (System.phase2 ms r) j →
      RecStage ms r j (postRecord ms r j) (.recv (postRecord ms r j).rank .query)
  | queryIn : AwaitsQuery r (System.phase2 ms r) j →
      RecStage ms r j
        { postRecord ms r j with querypos := System.query ms (postRecord ms r j).rank r } .ready
  | replyOut {q : Req} : AwaitsQuery r (System.phase2 ms r) j →
      (q = .send (postRecord ms r j).rank .reply ∨ q = .ready) →
      RecStage ms r j { postRecord ms r j with
        querypos := System.reply ms r (postRecord ms r j).rank, done := 2 } q
  | answered : AwaitsQuery r (System.phase2 ms r) j →
      RecStage ms r j ((System.answerStep ms r (System.phase2 ms r) j).peers.getD j default) .null
  | queryOut {q : Req} : AwaitsReply r (System.phase2 ms r) j →
      (q = .send (postRecord ms r j).rank .query ∨ q = .ready) →
      RecStage ms r j (postRecord ms r j) q
  | replyPosted : AwaitsReply r (System.phase2 ms r) j →
      RecStage ms r j { postRecord ms r j with done := 4 } (.recv (postRecord ms r j).rank .reply)
  | replyIn : AwaitsReply r (System.phase2 ms r) j →
      RecStage ms r j { postRecord ms r j with
        querypos := System.reply ms (postRecord ms r j).rank r, done := 4 } .ready
  | processed : AwaitsReply r (System.phase2 ms r) j →
      RecStage ms r j ((System.receiveStep ms r (System.phase2 ms r) j).peers.getD j default) .null

/-- **Process `r` during the exchange**, having processed the replies of the peers `L` in this
order: its state is the reference receive loop over `L` with other peer records and requests, the
peers of `L` are those awaiting a reply whose request is freed, and every record is in a stage.
Source: `wait_query_reply` (part_000 ll. 1036–1177)
Kind: D -/
structure Progress (ms : Nat → TnodesMeta) (r : Nat) (me : TnodesMeta) (L : List Nat) : Prop where
  nodup : L.Nodup
  processed : ∀ j, j ∈ L ↔ AwaitsReply r (System.phase2 ms r) j ∧ me.reqAt j = .null
  state : me = { L.foldl (System.receiveStep ms r) (System.phase2 ms r) with
    peers := me.peers, pereq := me.pereq }
  length : me.peers.length = (System.phase2 ms r).peers.length
  pereq : me.pereq.length = (System.phase2 ms r).peers.length
  stage : ∀ j < (System.phase2 ms r).peers.length,
    RecStage ms r j (me.peers.getD j default) (me.reqAt j)

/-- What the refinement needs of process `r` before the exchange: it has posted its requests, it
can receive its replies in any order, `sortp` lists its peers, it sends the queries of the
reference run, and no query it answers asks for a candidate it receives a number for.
Source: `p4est_tnodes_new` (part_000 ll. 1494–1507)
Kind: D -/
structure ExchangeReady (P : Nat) (ms : Nat → TnodesMeta) (r : Nat) : Prop where
  posted : Posted P r (fun r q => ((System.phase2 ms r).peerOf q).bufcount) (System.phase2 ms r)
  receive : ReceiveReady ms r (System.phase2 ms r) (System.phase2 ms r).sortp
  sortp : ∀ j, j ∈ (System.phase2 ms r).sortp ↔ j < (System.phase2 ms r).peers.length
  query : ∀ j, AwaitsReply r (System.phase2 ms r) j →
    (postRecord ms r j).querypos = System.query ms r (postRecord ms r j).rank
  stable : ∀ j, AwaitsQuery r (System.phase2 ms r) j →
    ∀ e ∈ System.query ms (postRecord ms r j).rank r, ∀ i, AwaitsReply r (System.phase2 ms r) i →
      ((System.phase2 ms r).elementNodes e.toNat).toNat ∉ (postRecord ms r i).sharedno

/-! ## The loop body on one peer -/

section waitReport

variable (me : TnodesMeta) (j : Nat)

lemma waitReport_answer (h1 : me.mpirank < (me.peers.getD j default).rank)
    (h2 : (me.peers.getD j default).done = 1) :
    (waitReport me j).1 = { me with
      peers := me.peers.set j { me.peers.getD j default with
        querypos := (me.peers.getD j default).querypos.map (translateEntry me), done := 2 },
      pereq := me.pereq.set j (.send (me.peers.getD j default).rank .reply) } := by
  simp only [waitReport, gt_iff_lt, h1, h2, if_true, List.set_set]

lemma waitReport_finish (h1 : me.mpirank < (me.peers.getD j default).rank)
    (h2 : (me.peers.getD j default).done ≠ 1) :
    (waitReport me j).1 = { me with
      peers := me.peers.set j { me.peers.getD j default with done := 0 },
      pereq := me.pereq.set j .null } := by
  simp only [waitReport, gt_iff_lt, h1, h2, if_true, if_false]

lemma waitReport_query (h1 : ¬ me.mpirank < (me.peers.getD j default).rank)
    (h3 : (me.peers.getD j default).done = 3) :
    (waitReport me j).1 = { me with
      peers := me.peers.set j { me.peers.getD j default with done := 4 },
      pereq := me.pereq.set j (.recv (me.peers.getD j default).rank .reply) } := by
  simp only [waitReport, gt_iff_lt, h1, h3, if_true, if_false, List.set_set]

lemma waitReport_process (h1 : ¬ me.mpirank < (me.peers.getD j default).rank)
    (h3 : (me.peers.getD j default).done ≠ 3) :
    (waitReport me j).1 = processReply { me with pereq := me.pereq.set j .null } j := by
  simp only [waitReport, gt_iff_lt, h1, h3, if_false]

end waitReport

/-! ## One process -/

lemma answerStep_getD_post {ms : Nat → TnodesMeta} {r j : Nat}
    (hA : AwaitsQuery r (System.phase2 ms r) j) :
    (System.answerStep ms r (System.phase2 ms r) j).peers.getD j default =
      { postRecord ms r j with querypos := System.reply ms r (postRecord ms r j).rank, done := 0 } := by
  have hA' := hA
  unfold AwaitsQuery at hA'
  dsimp only [System.answerStep]
  rw [if_pos hA', answerQuery, getD_set, if_pos ⟨rfl, hA.lt⟩]
  rfl

section progress

variable {ms : Nat → TnodesMeta} {r : Nat} {me : TnodesMeta} {L : List Nat}
  (h : Progress ms r me L)
include h

lemma Progress.awaits {j : Nat} (hj : j ∈ L) : AwaitsReply r (System.phase2 ms r) j :=
  ((h.processed j).mp hj).1

lemma Progress.lt {j : Nat} (hq : me.reqAt j ≠ .null) : j < (System.phase2 ms r).peers.length :=
  h.pereq ▸ lt_of_reqAt_ne hq

/-- A step on one peer record that keeps the processed replies: the record moves to a stage,
with a request that stays posted if the peer awaits a reply.
Source: `wait_query_reply` (part_000 ll. 1062–1168)
Kind: L -/
lemma Progress.update {j : Nat} (hj : j < (System.phase2 ms r).peers.length)
    (hq0 : me.reqAt j ≠ .null) {p : Peer} {q : Req} (hst : RecStage ms r j p q)
    (hq : AwaitsReply r (System.phase2 ms r) j → q ≠ .null) :
    Progress ms r { me with peers := me.peers.set j p, pereq := me.pereq.set j q } L where
  nodup := h.nodup
  processed i := by
    rw [h.processed]
    simp only [TnodesMeta.reqAt, getD_set]
    split_ifs with hij
    · obtain ⟨rfl, -⟩ := hij
      exact ⟨fun h' => absurd h'.2 hq0, fun h' => absurd h'.2 (hq h'.1)⟩
    · rfl
  state := by rw [h.state]
  length := by rw [List.length_set, h.length]
  pereq := by rw [List.length_set, h.pereq]
  stage i hi := by
    simp only [TnodesMeta.reqAt, getD_set]
    by_cases hij : j = i
    · subst hij
      rw [if_pos ⟨rfl, h.length ▸ hj⟩, if_pos ⟨rfl, h.pereq ▸ hj⟩]
      exact hst
    · rw [if_neg fun h' => hij h'.1, if_neg fun h' => hij h'.1]
      exact h.stage i hi

/-- **Completing a send** moves a record from a posted send to a completed one. -/
lemma Progress.sendDone {j d : Nat} {t : Tag} (hq : me.reqAt j = .send d t) :
    Progress ms r (me.setReq j .ready) L := by
  have hq0 : me.reqAt j ≠ .null := by simp [hq]
  have hj := h.lt hq0
  have hst := h.stage j hj
  rw [hq] at hst
  have hs : me.setReq j .ready =
      { me with peers := me.peers.set j (me.peers.getD j default), pereq := me.pereq.set j .ready } := by
    rw [set_getD_self]
    rfl
  rw [hs]
  refine h.update hj hq0 ?_ fun _ => by simp
  generalize me.peers.getD j default = p at hst ⊢
  cases hst with
  | replyOut hA _ => exact .replyOut hA (.inr rfl)
  | queryOut hA _ => exact .queryOut hA (.inr rfl)

/-- **Completing a receive** with the buffer of the reference run moves a record from a posted
receive to a completed one holding that buffer. -/
lemma Progress.recvDone {j a : Nat} {t : Tag} (hq : me.reqAt j = .recv a t) :
    Progress ms r ((me.setQuerypos j (System.message ms a r t)).setReq j .ready) L := by
  have hq0 : me.reqAt j ≠ .null := by simp [hq]
  have hj := h.lt hq0
  have hst := h.stage j hj
  rw [hq] at hst
  refine h.update hj hq0 ?_ fun _ => by simp
  generalize me.peers.getD j default = p at hst ⊢
  cases hst with
  | queryPosted hA => exact .queryIn hA
  | replyPosted hA => exact .replyIn hA
  | replyOut _ hq' => simp at hq'
  | queryOut _ hq' => simp at hq'

end progress

section ready

variable {P : Nat} {ms : Nat → TnodesMeta} {r : Nat} (hE : ExchangeReady P ms r)
include hE

/-- The state each peer starts the exchange in. -/
lemma ExchangeReady.done {j : Nat} (hj : j < (System.phase2 ms r).peers.length) :
    (postRecord ms r j).done =
      if (postRecord ms r j).bufcount = 0 then 0 else if r < (postRecord ms r j).rank then 1 else 3 :=
  hE.posted.done j hj

lemma ExchangeReady.done_of_awaitsQuery {j : Nat} (hA : AwaitsQuery r (System.phase2 ms r) j) :
    (postRecord ms r j).done = 1 := by
  rw [hE.done hA.lt, if_neg (show ¬ (postRecord ms r j).bufcount = 0 from hA.1),
    if_pos (show r < (postRecord ms r j).rank from hA.2)]

lemma ExchangeReady.done_of_awaitsReply {j : Nat} (hA : AwaitsReply r (System.phase2 ms r) j) :
    (postRecord ms r j).done = 3 := by
  rw [hE.done hA.lt, if_neg (show ¬ (postRecord ms r j).bufcount = 0 from hA.1),
    if_neg (show ¬ r < (postRecord ms r j).rank from not_lt.mpr hA.2.le)]

/-- The request each peer starts the exchange with. -/
lemma ExchangeReady.reqAt {j : Nat} (hj : j < (System.phase2 ms r).peers.length) :
    (System.phase2 ms r).reqAt j = postedReq r (postRecord ms r j) := by
  rw [TnodesMeta.reqAt, hE.posted.pereq, List.getD_eq_getElem _ _ (by simpa using hj),
    List.getElem_map, ← List.getD_eq_getElem _ default hj]
  rfl

lemma ExchangeReady.receiveReady {L : List Nat} (hnd : L.Nodup)
    (hL : ∀ j ∈ L, AwaitsReply r (System.phase2 ms r) j) :
    ReceiveReady ms r (System.phase2 ms r) L :=
  hE.receive.mono ms r hnd fun j hj => (hE.sortp j).mpr (hL j hj).lt

variable {me : TnodesMeta} {L : List Nat} (h : Progress ms r me L)
include h

lemma Progress.received :
    Received ms r (System.phase2 ms r) (L.foldl (System.receiveStep ms r) (System.phase2 ms r)) L :=
  received_of_foldl ms r (hE.receiveReady h.nodup fun _ => h.awaits)

lemma Progress.mpirank : me.mpirank = r := by
  rw [h.state]
  exact (h.received hE).keeps.mpirank.trans hE.posted.proc.mpirank

/-- A query is answered during the exchange as before it. -/
lemma Progress.translateEntry {j : Nat} (hA : AwaitsQuery r (System.phase2 ms r) j) {e : Int}
    (he : e ∈ System.query ms (postRecord ms r j).rank r) :
    P4estTnodes.translateEntry me e = P4estTnodes.translateEntry (System.phase2 ms r) e := by
  rw [h.state]
  exact (h.received hE).translateEntry ms r fun i _ hi => hE.stable j hA e he i hi

/-- **Processing a reply is one more step of the reference receive loop**, on the order in
which the replies complete.
Source: `wait_query_reply` (part_000 ll. 1117–1165)
Kind: L -/
lemma Progress.process {j : Nat} (hq : me.reqAt j = .ready) (hA : AwaitsReply r (System.phase2 ms r) j)
    (hp : me.peers.getD j default = { postRecord ms r j with
      querypos := System.reply ms (postRecord ms r j).rank r, done := 4 }) :
    Progress ms r (processReply { me with pereq := me.pereq.set j .null } j) (L ++ [j]) := by
  have hj := hA.lt
  have hjL : j ∉ L := fun hjL => by simp [((h.processed j).mp hjL).2] at hq
  have hR := h.received hE
  generalize hF : L.foldl (System.receiveStep ms r) (System.phase2 ms r) = F at hR
  have hFj : F.peers.getD j default = postRecord ms r j := by
    rw [← hF, foldl_receiveStep_getD ms r h.nodup (hE.receiveReady h.nodup fun _ => h.awaits).ready
      rfl rfl (fun _ _ => rfl), if_neg hjL]
    rfl
  have hF' : (F.setQuerypos j (System.reply ms (postRecord ms r j).rank r)).peers.getD j default =
      { postRecord ms r j with querypos := System.reply ms (postRecord ms r j).rank r } := by
    rw [setQuerypos_getD, if_pos ⟨rfl, hR.length ▸ hj⟩, hFj]
  have hstep : System.receiveStep ms r F j =
      processReply (F.setQuerypos j (System.reply ms (postRecord ms r j).rank r)) j := by
    dsimp only [System.receiveStep]
    rw [hFj, if_pos (show (postRecord ms r j).bufcount ≠ 0 ∧ (postRecord ms r j).rank < r from hA)]
    rfl
  have hme : { me with pereq := me.pereq.set j .null } =
      { F.setQuerypos j (System.reply ms (postRecord ms r j).rank r) with
        peers := me.peers, pereq := me.pereq.set j .null } := by
    rw [h.state, hF]
    rfl
  have hps : me.peers.getD j default =
      { (F.setQuerypos j (System.reply ms (postRecord ms r j).rank r)).peers.getD j default with
        done := 4 } := by
    rw [hp, hF']
  have hrec : (System.receiveStep ms r F j).peers.getD j default =
      (System.receiveStep ms r (System.phase2 ms r) j).peers.getD j default :=
    receiveStep_getD_self ms r hFj hR.length hR.keeps.length
      fun _ => hE.receive.ready j ((hE.sortp j).mpr hj) hA
  rw [hme, processReply_withPeers _ _ _ (by simpa [hR.length] using hj) hps, ← hstep, hrec]
  refine ⟨List.nodup_append.mpr ⟨h.nodup, List.nodup_singleton j, by simpa using hjL⟩,
    fun i => ?_, by rw [← hF, List.foldl_append]; rfl, by rw [List.length_set, h.length],
    by rw [List.length_set, h.pereq], fun i hi => ?_⟩
  · simp only [List.mem_append, List.mem_singleton, TnodesMeta.reqAt, getD_set]
    by_cases hij : j = i
    · subst hij
      simp [hA, h.pereq, hj, hjL]
    · rw [if_neg fun h' => hij h'.1, h.processed, TnodesMeta.reqAt]
      exact ⟨fun h' => h'.resolve_right (Ne.symm hij), .inl⟩
  · simp only [TnodesMeta.reqAt, getD_set]
    by_cases hij : j = i
    · subst hij
      rw [if_pos ⟨rfl, h.length ▸ hj⟩, if_pos ⟨rfl, h.pereq ▸ hj⟩]
      exact .processed hA
    · rw [if_neg fun h' => hij h'.1, if_neg fun h' => hij h'.1]
      exact h.stage i hi

/-- **The loop body moves one record** to its next stage.
Source: `wait_query_reply` (part_000 ll. 1070–1166)
Kind: L -/
lemma Progress.waitReport {j : Nat} (hq : me.reqAt j = .ready) :
    ∃ L', Progress ms r (waitReport me j).1 L' := by
  have hq0 : me.reqAt j ≠ .null := by simp [hq]
  have hj := h.lt hq0
  have hmr := h.mpirank hE
  have hst := h.stage j hj
  rw [hq] at hst
  generalize hp : me.peers.getD j default = p at hst
  cases hst with
  | queryIn hA =>
    rw [waitReport_answer me j (by rw [hp, hmr]; exact hA.2)
      (by rw [hp]; dsimp only; exact hE.done_of_awaitsQuery hA)]
    refine ⟨L, h.update hj hq0 ?_ fun _ => by simp⟩
    have hm : (System.query ms (postRecord ms r j).rank r).map (P4estTnodes.translateEntry me) =
        System.reply ms r (postRecord ms r j).rank :=
      List.map_congr_left fun e he => h.translateEntry hE hA he
    rw [hp]
    dsimp only
    rw [hm]
    exact .replyOut hA (.inl rfl)
  | replyOut hA _ =>
    have h2 : (me.peers.getD j default).done ≠ 1 := by rw [hp]; exact fun h => by cases h
    rw [waitReport_finish me j (by rw [hp, hmr]; exact hA.2) h2]
    refine ⟨L, h.update hj hq0 ?_ fun hA' => absurd hA'.2 (not_lt.mpr hA.2.le)⟩
    have := RecStage.answered hA
    rw [answerStep_getD_post hA] at this
    rw [hp]
    exact this
  | queryOut hA _ =>
    rw [waitReport_query me j (by rw [hp, hmr]; exact not_lt.mpr hA.2.le)
      (by rw [hp]; exact hE.done_of_awaitsReply hA)]
    refine ⟨L, h.update hj hq0 ?_ fun _ => by simp⟩
    rw [hp]
    exact .replyPosted hA
  | replyIn hA =>
    have h3 : (me.peers.getD j default).done ≠ 3 := by rw [hp]; exact fun h => by cases h
    rw [waitReport_process me j (by rw [hp, hmr]; exact not_lt.mpr hA.2.le) h3]
    exact ⟨L ++ [j], h.process hE hq hA hp⟩

/-- **Every message a process posts carries the buffer of the reference run.**
Source: `post_query_reply` (part_000 ll. 1021–1026), `wait_query_reply` (ll. 1106–1108)
Kind: L -/
lemma Progress.postedMsg (j : Nat) :
    ∀ m ∈ me.postedMsg r j, m.buf = System.message ms m.src m.dst m.tag := by
  intro m hm
  cases hq : me.reqAt j with
  | send d t =>
    rw [postedMsg_send hq, List.mem_singleton] at hm
    subst hm
    have hst := h.stage j (h.lt (by simp [hq]))
    rw [hq] at hst
    generalize me.peers.getD j default = p at hst ⊢
    cases hst with
    | replyOut hA hq' =>
      obtain ⟨rfl, rfl⟩ : d = (postRecord ms r j).rank ∧ t = .reply := by simpa using hq'
      rfl
    | queryOut hA hq' =>
      obtain ⟨rfl, rfl⟩ : d = (postRecord ms r j).rank ∧ t = .query := by simpa using hq'
      exact hE.query j hA
  | _ => simp [postedMsg_nil, hq] at hm

end ready

/-! ## The end of a process -/

section complete

variable {P : Nat} {ms : Nat → TnodesMeta} {r : Nat} (hE : ExchangeReady P ms r)
  {me : TnodesMeta} {L : List Nat} (h : Progress ms r me L)
include hE h

/-- A finished record is the record of the reference run, and its request is freed. -/
lemma Progress.getD_of_done {j : Nat} (hj : j < (System.phase2 ms r).peers.length)
    (hd : (me.peers.getD j default).done = 0) :
    me.peers.getD j default = (System.exchange ms r).peers.getD j default ∧ me.reqAt j = .null := by
  have hst := h.stage j hj
  rw [exchange_getD ms r hE.receive hE.sortp j]
  generalize me.peers.getD j default = p at hst hd ⊢
  generalize me.reqAt j = q at hst ⊢
  cases hst with
  | idle h0 =>
    refine ⟨?_, rfl⟩
    dsimp only [System.answerStep]
    rw [if_neg fun hA => hA.1 h0, if_neg fun hA => hA.1 h0]
    rfl
  | answered hA => exact ⟨by rw [if_neg fun hA' => absurd hA'.2 (not_lt.mpr hA.2.le)], rfl⟩
  | processed hA => exact ⟨by rw [if_pos hA], rfl⟩
  | queryPosted hA => exact absurd hd (by rw [hE.done_of_awaitsQuery hA]; decide)
  | queryIn hA => exact absurd hd (by dsimp only; rw [hE.done_of_awaitsQuery hA]; decide)
  | queryOut hA _ => exact absurd hd (by rw [hE.done_of_awaitsReply hA]; decide)
  | replyOut _ _ => cases hd
  | replyPosted _ => cases hd
  | replyIn _ => cases hd

/-- **A finished process is in the state of the reference run**, with its requests freed: the
replies it processed in the order they completed number the candidates as the reference run does.
Source: `wait_query_reply` (part_000 ll. 1036–1177)
Kind: L -/
lemma Progress.complete
    (hdone : ∀ j < (System.phase2 ms r).peers.length, (me.peers.getD j default).done = 0) :
    me = { System.exchange ms r with
      pereq := List.replicate (System.phase2 ms r).peers.length .null } := by
  have hfin := fun j hj => h.getD_of_done hE hj (hdone j hj)
  have hX := exchange_received ms r hE.receive
  obtain ⟨hc, hn⟩ := (h.received hE).eq hX
    (fun i hA => ⟨fun _ => (hE.sortp i).mpr hA.lt, fun _ => (h.processed i).mpr ⟨hA, (hfin i hA.lt).2⟩⟩)
    (hE.receiveReady h.nodup fun _ => h.awaits).ready
  have hpeers : me.peers = (System.exchange ms r).peers :=
    List.ext_getElem (h.length.trans hX.length.symm) fun i h1 h2 => by
      rw [← List.getD_eq_getElem _ default h1, ← List.getD_eq_getElem _ default h2]
      exact (hfin i (h.length ▸ h1)).1
  have hpereq : me.pereq = List.replicate (System.phase2 ms r).peers.length .null :=
    List.ext_getElem (by rw [List.length_replicate, h.pereq]) fun i h1 _ => by
      rw [List.getElem_replicate, ← List.getD_eq_getElem _ .null h1]
      exact (hfin i (h.pereq ▸ h1)).2
  obtain ⟨cs, nl, ps, hF⟩ := (h.received hE).frame
  obtain ⟨cs', nl', ps', hX'⟩ := hX.frame
  rw [hF, hX'] at hc hn
  change cs = cs' at hc
  change nl = nl' at hn
  subst hc hn
  rw [h.state, hpeers, hpereq, hF, hX']

end complete

/-! ## All processes -/

/-- **The refinement invariant** of the exchange on the processes `r < P`: every message sent, and
so every message in transit, carries the buffer of the reference run, and every process is in
`Progress`.
Source: `wait_query_reply` (part_000 ll. 1036–1177) on every process, and the transport
Kind: D -/
structure Refines (P : Nat) (ms : Nat → TnodesMeta) (s : Net) : Prop where
  sent : ∀ m ∈ s.sent, m.buf = System.message ms m.src m.dst m.tag
  transit : ∀ m ∈ s.transit, m.buf = System.message ms m.src m.dst m.tag
  procs : ∀ r < P, ∃ L, Progress ms r (s.procs r) L

lemma Refines.setProc {P : Nat} {ms : Nat → TnodesMeta} {s : Net} (hR : Refines P ms s) {r : Nat} {m : TnodesMeta}
    (hm : ∃ L, Progress ms r m L) : ∀ r' < P, ∃ L, Progress ms r' ((s.setProc r m).procs r') L := by
  intro r' hr'
  by_cases hrr : r' = r
  · subst hrr
    rwa [Net.setProc_procs, Function.update_same]
  · rw [Net.setProc_procs, Function.update_noteq hrr]
    exact hR.procs r' hr'

section net

variable {P : Nat} {ms : Nat → TnodesMeta} (hE : ∀ r < P, ExchangeReady P ms r)
include hE

/-- **The start**: the queries posted are those of the reference run, and every process has
processed no reply.
Source: `post_query_reply` (part_000 ll. 979–1034)
Kind: L -/
lemma refines_init : Refines P ms (Net.init P ms) := by
  have hmsg : ∀ m ∈ initMsgs P (System.phase2 ms), m.buf = System.message ms m.src m.dst m.tag := by
    intro m hm
    obtain ⟨r, hr, hm⟩ := List.mem_flatMap.mp hm
    obtain ⟨p, hp, rfl⟩ := List.mem_map.mp hm
    rw [List.mem_filter, decide_eq_true_eq] at hp
    rw [List.mem_range] at hr
    obtain ⟨j, hj, rfl⟩ := List.getElem_of_mem hp.1
    rw [(hE r hr).posted.proc.mpirank] at hp
    rw [← List.getD_eq_getElem _ default hj] at hp ⊢
    exact (hE r hr).query j hp.2
  refine ⟨hmsg, hmsg, fun r hr => ⟨[], ?_⟩⟩
  have hE' := hE r hr
  rw [Net.init, Net.start]
  dsimp only
  refine ⟨List.nodup_nil, fun j => ?_, by rw [List.foldl_nil], rfl, hE'.posted.proc.pereq, fun j hj => ?_⟩
  · refine ⟨fun h' => absurd h' (List.not_mem_nil j), fun ⟨hA, hq⟩ => ?_⟩
    rw [hE'.reqAt hA.lt, postedReq,
      if_neg (show ¬ (postRecord ms r j).bufcount = 0 from hA.1),
      if_neg (show ¬ (postRecord ms r j).rank > r from not_lt.mpr hA.2.le)] at hq
    cases hq
  · show RecStage ms r j (postRecord ms r j) ((System.phase2 ms r).reqAt j)
    rw [hE'.reqAt hj, postedReq]
    split_ifs with h0 h1
    · exact .idle h0
    · exact .queryPosted ⟨h0, h1⟩
    · exact .queryOut ⟨h0, lt_of_le_of_ne (not_lt.mp h1) (hE'.posted.proc.rank j hj).1⟩ (.inl rfl)

/-- The loop body on one reported peer keeps the refinement invariant. -/
lemma Refines.wakeOne {s : Net} (hR : Refines P ms s) {r j : Nat} (hr : r < P)
    (hq : (s.procs r).reqAt j = .ready) : Refines P ms (s.wakeOne r j) := by
  obtain ⟨L, hL⟩ := hR.procs r hr
  obtain ⟨L', hL'⟩ := hL.waitReport (hE r hr) hq
  have hm := hL'.postedMsg (hE r hr) j
  refine ⟨fun m hm' => ?_, fun m hm' => ?_, hR.setProc ⟨L', hL'⟩⟩
  · rcases List.mem_append.mp hm' with hm' | hm'
    · exact hR.sent m hm'
    · exact hm m hm'
  · rcases List.mem_append.mp hm' with hm' | hm'
    · exact hR.transit m hm'
    · exact hm m hm'

lemma Refines.wake {r : Nat} (hr : r < P) : ∀ {W : List Nat} {s : Net}, Refines P ms s →
    W.Nodup → (∀ j ∈ W, (s.procs r).reqAt j = .ready) → Refines P ms (s.wake r W)
  | [], _, hR, _, _ => hR
  | j :: W, s, hR, hnd, hW => by
    rw [List.nodup_cons] at hnd
    obtain ⟨L, hL⟩ := hR.procs r hr
    have hj := hL.lt (by simp [hW j (.head _)] : (s.procs r).reqAt j ≠ .null)
    have hf := frame_waitReport (s.procs r) (hL.length ▸ hj) (hL.pereq ▸ hj)
    rw [Net.wake_cons]
    refine Refines.wake hr (hR.wakeOne hE hr (hW j (.head _))) hnd.2 fun i hi => ?_
    simp only [Net.wakeOne, Function.update_same]
    rw [(hf.other i fun e => hnd.1 (e ▸ hi)).2]
    exact hW i (.tail _ hi)

/-- **Every step keeps the refinement invariant.** -/
lemma Refines.step {s s' : Net} (hR : Refines P ms s) (h : Net.Step P s s') : Refines P ms s' := by
  cases h with
  | sendDone hr hq =>
    obtain ⟨L, hL⟩ := hR.procs _ hr
    exact ⟨hR.sent, hR.transit, hR.setProc ⟨L, hL.sendDone hq⟩⟩
  | recvDone hr hm hd hq =>
    obtain ⟨L, hL⟩ := hR.procs _ hr
    have hbuf := hR.transit _ hm
    rw [hd] at hbuf
    refine ⟨hR.sent, fun m' hm' => hR.transit m' (List.mem_of_mem_erase hm'), ?_⟩
    exact hR.setProc ⟨L, hbuf ▸ hL.recvDone hq⟩
  | wake hr _ _ hnd hq => exact hR.wake hE hr hnd hq

lemma Refines.reachable {s0 s : Net} (h0 : Refines P ms s0) (h : Net.Reachable P s0 s) :
    Refines P ms s := by
  induction h with
  | init => exact h0
  | step _ hs ih => exact ih.step hE hs

end net

/-- From every state of the invariant some run reaches a state where every process has left its
loop: while one waits, a step is enabled, and every step lowers the measure. -/
lemma Net.Reachable.head {P : Nat} {s s' t : Net} (h : Net.Step P s s') (h' : Net.Reachable P s' t) :
    Net.Reachable P s t := by
  induction h' with
  | init => exact .step .init h
  | step _ hs ih => exact .step ih hs

lemma NetInv.completes {P : Nat} {B : Nat → Nat → Nat}
    (hB : ∀ lo hi, lo < hi → hi < P → B hi lo = B lo hi) :
    ∀ (n : Nat) (s : Net), s.measure P ≤ n → NetInv P B s →
      ∃ t, Net.Reachable P s t ∧ ∀ r < P, t.nwtotal r = 0
  | n, s, hn, hI => by
    by_cases hw : ∀ r < P, s.nwtotal r = 0
    · exact ⟨s, .init, hw⟩
    · push_neg at hw
      obtain ⟨r, hr, hw⟩ := hw
      obtain ⟨s', hs'⟩ := hI.syncStep_of_waiting hr (Nat.pos_of_ne_zero hw)
      obtain ⟨hI', hlt⟩ := hI.step hB hs'.step
      obtain ⟨t, ht, hfin⟩ := NetInv.completes hB (s'.measure P) s' le_rfl hI'
      exact ⟨t, ht.head hs'.step, hfin⟩
termination_by n => n
decreasing_by omega

/-! ## Consistent views of one mesh -/

namespace ConsistentViews

variable {P : Nat} {ms : Nat → TnodesMeta} {gnode : Nat → Nat → Nat}
  (hv : ConsistentViews P ms gnode) (ht : ∀ r < P, Traversed (ms r))
include hv ht

/-- A process sends the query of the reference run to each lower peer.
Source: `owned_query_reply` (part_000 ll. 802–812), `post_query_reply` (ll. 1021–1026)
Kind: L -/
lemma postRecord_querypos {r j : Nat} (hr : r < P) (hA : AwaitsReply r (System.phase2 ms r) j) :
    (postRecord ms r j).querypos = System.query ms r (postRecord ms r j).rank := by
  have hmr : (ms r).mpirank = r := (hv.rank r hr).1
  obtain ⟨s, hs⟩ := (ht r hr).phase2.peer j hA.lt
  have hb : (postRecord ms r j).bufcount ≠ 0 := hA.1
  have hlt : (postRecord ms r j).rank < (ms r).mpirank := by rw [hmr]; exact hA.2
  unfold postRecord at hb hlt ⊢
  rw [System.query, System.phase1, (ht r hr).peerOf_querypos hlt]
  generalize ((System.phase2 ms r).peers.getD j default).rank = q at hs hlt
  rw [hs] at hb ⊢
  simp only [postedPeer_bufcount] at hb
  unfold postedPeer
  rw [if_neg hb, if_neg (not_lt.mpr (by simpa [peerBelow] using hlt.le))]
  rfl

/-- A query a process answers asks for candidates it owns, and it receives numbers only for
candidates it does not own.
Source: `owned_query_reply` (part_000 ll. 789–812), `wait_query_reply` (ll. 1083–1101)
Kind: L -/
lemma query_not_sharedno {r j i : Nat} (hr : r < P) (hA : AwaitsQuery r (System.phase2 ms r) j)
    {e : Int} (he : e ∈ System.query ms (postRecord ms r j).rank r)
    (hi : AwaitsReply r (System.phase2 ms r) i) :
    ((System.phase2 ms r).elementNodes e.toNat).toNat ∉ (postRecord ms r i).sharedno := by
  have h2 := (ht r hr).phase2
  have hmr : (ms r).mpirank = r := (hv.rank r hr).1
  have hq : (postRecord ms r j).rank < P := (hv.phase2_rank ht hr hA.lt).2
  rw [System.query, System.phase1, (ht _ hq).peerOf_querypos
    (show r < (ms (postRecord ms r j).rank).mpirank by rw [(hv.rank _ hq).1]; exact hA.2)] at he
  obtain ⟨c, hc, rfl⟩ := List.mem_map.mp he
  simp only [queriedBelow, List.mem_filter, List.mem_range, decide_eq_true_eq] at hc
  obtain ⟨-, c', -, -, -, ho', hen⟩ := hv.owner_slot ht hq hc.1 hc.2.1 hc.2.2.2
  rw [h2.keeps.elementNodes, hen, Int.toNat_natCast]
  intro hc'
  rw [postRecord, h2.sharedno hi.lt] at hc'
  simp only [queriedBelow, List.mem_filter, decide_eq_true_eq] at hc'
  exact hc'.2.2.1 (ho'.trans hmr.symm)

/-- **Consistent views are ready for the exchange** on every process.
Source: `p4est_tnodes_new` (part_000 ll. 1494–1507)
Kind: L -/
lemma exchangeReady {r : Nat} (hr : r < P) : ExchangeReady P ms r :=
  ⟨hv.posted ht hr, hv.receiveReady ht hr, (ht r hr).phase2.sortp.2,
    fun _ hA => hv.postRecord_querypos ht hr hA, fun _ hA _ he _ hi => hv.query_not_sharedno ht hr hA he hi⟩

end ConsistentViews

/-! ## Every run of the exchange -/

namespace ConsistentViews

variable {P : Nat} {ms : Nat → TnodesMeta} {gnode : Nat → Nat → Nat}
  (hv : ConsistentViews P ms gnode) (ht : ∀ r < P, Traversed (ms r))
include hv ht

lemma netInv_init :
    NetInv P (fun r q => ((System.phase2 ms r).peerOf q).bufcount) (Net.init P ms) :=
  netInv_start (fun _ hr => hv.posted ht hr) fun _ _ hlo hhi => hv.bufcount_agree ht hlo hhi

lemma refines_reachable {s : Net} (hs : Net.Reachable P (Net.init P ms) s) : Refines P ms s :=
  (refines_init fun _ hr => hv.exchangeReady ht hr).reachable (fun _ hr => hv.exchangeReady ht hr) hs

/-- From every reachable state some run brings every process out of its loop. -/
lemma completes {s : Net} (hs : Net.Reachable P (Net.init P ms) s) :
    ∃ t, Net.Reachable P s t ∧ ∀ r < P, t.nwtotal r = 0 :=
  NetInv.completes (fun _ _ hlo hhi => hv.bufcount_agree ht hlo hhi) _ s le_rfl
    ((hv.netInv_init ht).reachable (fun _ _ hlo hhi => hv.bufcount_agree ht hlo hhi) hs)

/-- **A completed run leaves every process in the state of the reference run.** -/
lemma procs_eq_exchange {s : Net} (hs : Net.Reachable P (Net.init P ms) s)
    (hfin : ∀ r < P, s.nwtotal r = 0) {r : Nat} (hr : r < P) :
    s.procs r = { System.exchange ms r with
      pereq := List.replicate (System.phase2 ms r).peers.length .null } := by
  obtain ⟨L, hL⟩ := (hv.refines_reachable ht hs).procs r hr
  refine hL.complete (hv.exchangeReady ht hr) fun j hj => ?_
  have hc := (((hv.netInv_init ht).reachable (fun _ _ hlo hhi => hv.bufcount_agree ht hlo hhi)
    hs).nwtotal r hr).symm.trans (hfin r hr)
  rw [List.length_eq_zero, List.filter_eq_nil_iff] at hc
  have hj' : j < (s.procs r).peers.length := hL.length ▸ hj
  have hmem : (s.procs r).peers.getD j default ∈ (s.procs r).peers := by
    rw [List.getD_eq_getElem _ _ hj']
    exact List.getElem_mem hj'
  simpa using hc _ hmem

end ConsistentViews

/-- **What every run of the exchange computes** on the processes `r < P` started from the
traversal results `ms`.
Source: `post_query_reply` (part_000 ll. 979–1034), `wait_query_reply` (ll. 1036–1177)
Kind: D -/
structure ExchangeRefinement (P : Nat) (ms : Nat → TnodesMeta) : Prop where
  /-- Every message sent carries the buffer the reference run sends. -/
  messages : ∀ s, Net.Reachable P (Net.init P ms) s → ∀ m ∈ s.sent,
    m.buf = System.message ms m.src m.dst m.tag
  /-- From every reachable state some run brings every process out of its loop. -/
  completes : ∀ s, Net.Reachable P (Net.init P ms) s →
    ∃ t, Net.Reachable P s t ∧ ∀ r < P, t.nwtotal r = 0
  /-- Once every process has left its loop, each is in the state of the reference run, with its
  requests freed. -/
  result : ∀ s, Net.Reachable P (Net.init P ms) s → (∀ r < P, s.nwtotal r = 0) →
    ∀ r < P, s.procs r = { System.exchange ms r with
      pereq := List.replicate (System.phase2 ms r).peers.length .null }

/-- **Every run of the exchange computes the reference run**, for traversal results that are
consistent views of one mesh, whatever order the transport and `MPI_Waitsome` choose. -/
theorem exchange_refinement {P : Nat} {ms : Nat → TnodesMeta} {gnode : Nat → Nat → Nat}
    (hv : ConsistentViews P ms gnode) (ht : ∀ r < P, Traversed (ms r)) :
    ExchangeRefinement P ms :=
  ⟨fun _ hs => (hv.refines_reachable ht hs).sent, fun _ hs => hv.completes ht hs,
    fun _ hs hfin _ hr => hv.procs_eq_exchange ht hs hfin hr⟩

/-- The two-process run of `twoRankViews` computes its reference run in every order. -/
theorem exchange_refinement_twoRanks :
    ConsistentViews 2 twoRankViews twoRankNode ∧ (∀ r < 2, Traversed (twoRankViews r)) ∧
      ExchangeRefinement 2 twoRankViews :=
  ⟨twoRankViews_ready.1, twoRankViews_ready.2,
    exchange_refinement twoRankViews_ready.1 twoRankViews_ready.2⟩

/-! ## The global numbering of every completed run -/

@[simp] lemma globalId_withPereq (m : TnodesMeta) (pq : List Req) (c : Nat) :
    ({ m with pereq := pq } : TnodesMeta).globalId c = m.globalId c := rfl

/-- What the global numbering of every completed run of the exchange is, on the processes
`r < P` and the nodes given by `gnode`: some run completes, and in every completed run each node
has one global number, the same on every process holding it, distinct for distinct nodes, in
`[0, goffset[P])`, every such number is taken, and a process owns exactly the nodes in its range.
Source: `wait_query_reply` (part_000 ll. 1036–1177), spec §4.5
Kind: D -/
structure RunNumbering (P : Nat) (ms : Nat → TnodesMeta) (gnode : Nat → Nat → Nat) : Prop where
  /-- Some run brings every process out of its loop. -/
  completes : ∃ s, Net.Reachable P (Net.init P ms) s ∧ ∀ r < P, s.nwtotal r = 0
  /-- Two candidates have the same global number exactly when they are of the same node. -/
  agree_iff : ∀ s, Net.Reachable P (Net.init P ms) s → (∀ r < P, s.nwtotal r = 0) →
    ∀ r < P, ∀ r' < P, ∀ c < (ms r).construct.length, ∀ c' < (ms r').construct.length,
      (ms r).isLocal c → (ms r').isLocal c' →
        ((s.procs r).globalId c = (s.procs r').globalId c' ↔ gnode r c = gnode r' c')
  /-- The global numbers lie in `[0, goffset[P])`. -/
  range : ∀ s, Net.Reachable P (Net.init P ms) s → (∀ r < P, s.nwtotal r = 0) →
    ∀ r < P, ∀ c < (ms r).construct.length, (ms r).isLocal c →
      0 ≤ (s.procs r).globalId c ∧ (s.procs r).globalId c < prefixSum (System.counts ms) P
  /-- Every number of `[0, goffset[P])` is a global number. -/
  surj : ∀ s, Net.Reachable P (Net.init P ms) s → (∀ r < P, s.nwtotal r = 0) →
    ∀ k < prefixSum (System.counts ms) P, ∃ r < P, ∃ c < (ms r).construct.length,
      (ms r).isLocal c ∧ (s.procs r).globalId c = k
  /-- A process owns exactly the nodes whose global numbers lie in its range. -/
  owned_iff : ∀ s, Net.Reachable P (Net.init P ms) s → (∀ r < P, s.nwtotal r = 0) →
    ∀ r < P, ∀ c < (ms r).construct.length, (ms r).isLocal c →
      ((ms r).ownerRank c = r ↔ prefixSum (System.counts ms) r ≤ (s.procs r).globalId c ∧
        (s.procs r).globalId c < prefixSum (System.counts ms) (r + 1))

/-- **Every completed run numbers the nodes globally**, for traversal results that are consistent
views of one mesh, whatever order the transport and `MPI_Waitsome` choose. -/
theorem exchange_runNumbering {P : Nat} {ms : Nat → TnodesMeta} {gnode : Nat → Nat → Nat}
    (hv : ConsistentViews P ms gnode) (ht : ∀ r < P, Traversed (ms r)) :
    RunNumbering P ms gnode := by
  obtain ⟨s0, hs0, hfin0⟩ := hv.completes ht Net.Reachable.init
  refine ⟨⟨s0, hs0, hfin0⟩, fun s hs hfin r hr r' hr' c hc c' hc' hl hl' => ?_,
    fun s hs hfin r hr c hc hl => ?_, fun s hs hfin k hk => ?_, fun s hs hfin r hr c hc hl => ?_⟩
  · rw [hv.procs_eq_exchange ht hs hfin hr, hv.procs_eq_exchange ht hs hfin hr']
    simp only [globalId_withPereq]
    exact ⟨hv.globalId_inj ht hr hr' hc hc' hl hl', hv.globalId_agree ht hr hr' hc hc' hl hl'⟩
  · rw [hv.procs_eq_exchange ht hs hfin hr, globalId_withPereq]
    exact hv.globalId_lt ht hr hc hl
  · obtain ⟨o, ho, hk1, hk2⟩ := exists_prefixSum_block (System.counts ms) hk
    obtain ⟨c, hc, hoc, e⟩ := hv.globalId_surj ht ho hk1 hk2
    refine ⟨o, ho, c, hc, TnodesMeta.isLocal_of_owned ((ht o ho).registered c hc)
      (hoc.trans (hv.rank o ho).1.symm), ?_⟩
    rw [hv.procs_eq_exchange ht hs hfin ho, globalId_withPereq, e]
  · rw [hv.procs_eq_exchange ht hs hfin hr, globalId_withPereq]
    exact hv.owned_iff_globalId ht hr hc hl

/-- The two-process run of `twoRankViews` numbers its nodes globally in every completed run. -/
theorem exchange_runNumbering_twoRanks :
    ConsistentViews 2 twoRankViews twoRankNode ∧ (∀ r < 2, Traversed (twoRankViews r)) ∧
      RunNumbering 2 twoRankViews twoRankNode :=
  ⟨twoRankViews_ready.1, twoRankViews_ready.2,
    exchange_runNumbering twoRankViews_ready.1 twoRankViews_ready.2⟩

end P4estTnodes
