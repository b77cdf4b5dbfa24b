import P4estTnodes.Finalize
import P4estTnodes.Traverse

/-!
# All processes together: `p4est_tnodes_new` after the traversal

The processes run the same code on their own traversal results `ms r` (`r < P`). Between the
traversal and the finalization they meet twice: in the `Allgather` of the owned counts, and in
the query and reply messages of the exchange. This file composes the per-process steps into one
function of the family `ms`, the **sequential reference run**:

* every process runs `owned_query_reply` and `post_query_reply` (`tnodesPhase1`);
* the `Allgather` hands every process the owned counts of all (`System.counts`), and every
  process runs `sort_allgather` and `sort_peers` (`System.phase2`);
* the query of process `q` to its owner `p` is the buffer `querypos` of `q`'s peer `p`, posted
  in `post_query_reply` (`System.query`); `p` answers it from its state after `sort_peers`
  (`System.reply`); every process first answers the queries of its higher peers, then processes
  the replies of its lower peers in rank order (`System.exchange`);
* every process runs `assign_element_nodes` and `populate_sharers` (`System.final`).

The exchange of the code runs in any order the transport and `MPI_Waitsome` choose; the network
model (`Net.Step`) has those runs, and every one that completes ends in the state of this one
(`exchange_refinement`).
-/

namespace P4estTnodes

/-- The local steps before the `Allgather`.
Source: `p4est_tnodes_new` (part_000 ll. 1494–1499)
Kind: D
Fidelity: exact -/
def tnodesPhase1 (me : TnodesMeta) : TnodesMeta := postQueryReply (ownedQueryReply me)

/-- The peer record of rank `q` (the default record if there is none).
Source: `peer_access` lookup
Kind: D -/
def TnodesMeta.peerOf (me : TnodesMeta) (q : Nat) : Peer :=
  (me.peers.find? (·.rank == q)).getD default

/-- Answer the query of the higher peer at index `j`, received as `query`: the reply buffer
replaces it and the peer is done.
Source: `wait_query_reply` (part_000 ll. 1078–1108, 1110–1114)
Kind: D -/
def answerQuery (me : TnodesMeta) (j : Nat) (query : List Int) : TnodesMeta :=
  let p := me.peers.getD j default
  { me with peers := me.peers.set j { p with querypos := query.map (translateEntry me), done := 0 } }

/-- Receive the buffer `buf` into the peer at index `j`.
Source: `sc_MPI_Irecv (&peer->querypos, ...)` (part_000 ll. 1120–1124)
Kind: D -/
def TnodesMeta.setQuerypos (me : TnodesMeta) (j : Nat) (buf : List Int) : TnodesMeta :=
  { me with peers := me.peers.set j { me.peers.getD j default with querypos := buf } }

/-- Process the reply of the lower peer at index `j`, received as `reply`.
Source: `wait_query_reply` (part_000 ll. 1117–1165)
Kind: D -/
def receiveReply (me : TnodesMeta) (j : Nat) (reply : List Int) : TnodesMeta :=
  processReply (me.setQuerypos j reply) j

namespace System

variable (ms : Nat → TnodesMeta)

/-- Process `r` after `owned_query_reply` and `post_query_reply`.
Source: `p4est_tnodes_new` (part_000 ll. 1494–1499)
Kind: D -/
def phase1 (r : Nat) : TnodesMeta := tnodesPhase1 (ms r)

/-- The owned counts the `Allgather` collects.
Source: `sort_allgather` (part_000 ll. 848–851)
Kind: D -/
def counts (q : Nat) : Nat := (phase1 ms q).numOwned

/-- Process `r` after `sort_allgather` and `sort_peers`.
Source: `p4est_tnodes_new` (part_000 ll. 1502–1507)
Kind: D -/
def phase2 (r : Nat) : TnodesMeta := sortPeers (sortAllgather (phase1 ms r) (counts ms))

/-- The query process `q` sends to process `p`: its peer `p`'s buffer after posting.
Source: `post_query_reply` (part_000 ll. 1021–1026)
Kind: D -/
def query (q p : Nat) : List Int := ((phase1 ms q).peerOf p).querypos

/-- The reply process `p` sends to process `q`: the query translated on `p`.
Source: `wait_query_reply` (part_000 ll. 1081–1108)
Kind: D -/
def reply (p q : Nat) : List Int := (query ms q p).map (translateEntry (phase2 ms p))

/-- Process `r` answers the query of the peer at index `j` if it is a higher peer with
messages.
Source: `wait_query_reply` (part_000 ll. 1078–1114)
Kind: D -/
def answerStep (r : Nat) (acc : TnodesMeta) (j : Nat) : TnodesMeta :=
  let p := acc.peers.getD j default
  if p.bufcount ≠ 0 ∧ r < p.rank then answerQuery acc j (query ms p.rank r) else acc

/-- Process `r` processes the reply of the peer at index `j` if it is a lower peer with
messages.
Source: `wait_query_reply` (part_000 ll. 1117–1165)
Kind: D -/
def receiveStep (r : Nat) (acc : TnodesMeta) (j : Nat) : TnodesMeta :=
  let p := acc.peers.getD j default
  if p.bufcount ≠ 0 ∧ p.rank < r then receiveReply acc j (reply ms p.rank r) else acc

/-- The exchange on process `r`: the queries of its higher peers answered, then the replies of
its lower peers processed in rank order; peers without messages are left alone.
Source: `wait_query_reply` (part_000 ll. 1036–1177)
Kind: D -/
def exchange (r : Nat) : TnodesMeta :=
  let m := phase2 ms r
  let m1 := (List.range m.peers.length).foldl (answerStep ms r) m
  m1.sortp.foldl (receiveStep ms r) m1

/-- Process `r` at the end of `p4est_tnodes_new`.
Source: `p4est_tnodes_new` (part_000 ll. 1510–1514)
Kind: D -/
def final (r : Nat) : TnodesMeta := populateSharers (assignElementNodes (exchange ms r))

end System

/-! ## Two runs of `p4est_tnodes_new` -/

/-- One element of level 0 on a single process: its volume, four boundary faces and four
corners.
Source: none: input data
Kind: D -/
def singleElementEvents : List Event :=
  [.volume ⟨0, 0⟩, .face ⟨0, [.full ⟨0, false, 0⟩]⟩, .face ⟨0, [.full ⟨1, false, 0⟩]⟩,
   .face ⟨0, [.full ⟨2, false, 0⟩]⟩, .face ⟨0, [.full ⟨3, false, 0⟩]⟩,
   .corner [⟨0, false, 0⟩], .corner [⟨1, false, 0⟩], .corner [⟨2, false, 0⟩],
   .corner [⟨3, false, 0⟩]]

/-- **`set_element_node` writes to the element index.** One level-0 element on one process,
default style without faces: the traversal registers the center (candidate 0) and the corners
0 to 3 (candidates 1 to 4); the owned sort numbers the corners 0 to 3 and the center 4. Row 17
lists positions 0 to 4, and every `set_element_node` writes `element_nodes[0]`: afterwards slot
0 holds 4, the number of the center, while its own node, corner 0, is number 0, and slot 4
still holds the candidate index 0 of the center, whose number is 4. -/
theorem tnodesNew_elementNodes_singleElement :
    (0 : Int) ∈ configPositions false (configIndex ((System.final (fun _ =>
      traverse p4estFaceCorners (TnodesMeta.init false false 1 0 none 1) singleElementEvents)
        0).configuration 0)) ∧
    (traverse p4estFaceCorners (TnodesMeta.init false false 1 0 none 1)
      singleElementEvents).elementNodes 0 = 1 ∧
    ((System.final (fun _ => traverse p4estFaceCorners (TnodesMeta.init false false 1 0 none 1)
      singleElementEvents) 0).construct.getD 1 default).runid = 0 ∧
    (System.final (fun _ => traverse p4estFaceCorners (TnodesMeta.init false false 1 0 none 1)
      singleElementEvents) 0).elementNodes 0 = 4 ∧
    ((System.final (fun _ => traverse p4estFaceCorners (TnodesMeta.init false false 1 0 none 1)
      singleElementEvents) 0).construct.getD 0 default).runid = 4 ∧
    (System.final (fun _ => traverse p4estFaceCorners (TnodesMeta.init false false 1 0 none 1)
      singleElementEvents) 0).elementNodes 4 = 0 := by
  decide

/-- Two level-0 elements side by side: `L` on process 0 and `R` on process 1 share `L`'s face 1
(`R`'s face 0); each process sees the other element as ghost 0. The iterator lists the left
element first on the shared corners.
Source: none: input data
Kind: D -/
def twoRankEvents : Nat → List Event
  | 0 => [.volume ⟨0, 0⟩, .face ⟨0, [.full ⟨0, false, 0⟩]⟩,
      .face ⟨0, [.full ⟨1, false, 0⟩, .full ⟨0, true, 0⟩]⟩,
      .face ⟨0, [.full ⟨2, false, 0⟩]⟩, .face ⟨0, [.full ⟨3, false, 0⟩]⟩,
      .corner [⟨0, false, 0⟩], .corner [⟨1, false, 0⟩, ⟨0, true, 0⟩],
      .corner [⟨2, false, 0⟩], .corner [⟨3, false, 0⟩, ⟨2, true, 0⟩]]
  | _ => [.volume ⟨0, 0⟩, .face ⟨0, [.full ⟨1, true, 0⟩, .full ⟨0, false, 0⟩]⟩,
      .face ⟨0, [.full ⟨1, false, 0⟩]⟩, .face ⟨0, [.full ⟨2, false, 0⟩]⟩,
      .face ⟨0, [.full ⟨3, false, 0⟩]⟩,
      .corner [⟨1, true, 0⟩, ⟨0, false, 0⟩], .corner [⟨1, false, 0⟩],
      .corner [⟨3, true, 0⟩, ⟨2, false, 0⟩], .corner [⟨3, false, 0⟩]]

/-- The traversal results of the two processes.
Source: none: input data
Kind: D -/
def twoRankViews (r : Nat) : TnodesMeta :=
  traverse p4estFaceCorners (TnodesMeta.init false false 2 r (some [(1 - r, 0)]) 1) (twoRankEvents r)

/-- **A shared-in node goes into one sharer record only.** On process 1 of the two-process run,
the two nodes of the shared face are owned by process 0 and shared in as local nodes 3 and 4,
with contributors `[0, 1]`. `populate_sharers` pushes each into the record of the last
contributor, process 1 itself: the record of process 0 stays empty. -/
theorem populateSharers_sharedIn_twoRanks :
    ((System.final twoRankViews 1).sharers.getD 0 default).rank = 0 ∧
    ((System.final twoRankViews 1).sharers.getD 0 default).sharedNodes = [] ∧
    ((System.final twoRankViews 1).sharers.getD 1 default).sharedNodes = [3, 4] ∧
    ((System.final twoRankViews 1).construct.getD 1 default).runid = 3 ∧
    ((System.final twoRankViews 1).construct.getD 3 default).runid = 4 ∧
    ((System.final twoRankViews 1).construct.getD 1 default).contr.map (·.rank) = [0, 1] ∧
    ((System.final twoRankViews 1).construct.getD 3 default).contr.map (·.rank) = [0, 1] := by
  decide

end P4estTnodes
