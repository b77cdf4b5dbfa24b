import Mathlib.Algebra.BigOperators.Group.List
import Mathlib.Algebra.Order.BigOperators.Group.Finset
import Mathlib.Algebra.Order.Ring.Nat
import Mathlib.Data.Finset.Card
import Mathlib.Data.List.GetD
import Mathlib.Data.List.Sort
import Mathlib.Data.Prod.Lex

/-!
# The tnodes data model: positions, configuration tables and the records of the algorithm

The 2D `p4est_tnodes_new` builds a distributed node numbering for the triangle mesh of a
balanced forest. This file holds everything the later modules share:

* the **position schema** of an element (`nCcorn`, `nCenter`, `nMface`, `nCface`, `nSplit`,
  `nHface`, `alwaysowned`): indices `0..24` of an element's node slots;
* the three **configuration tables** `p4estTnodesConfigCount`, `p4estTnodesConfigCorners`,
  `p4estTnodesConfigFaces`, copied verbatim, with `configIndex` (code `32` reads row `17`);
* the **records** of the algorithm: a contributor `Contr`, a candidate node `Cnode`, a peer
  `Peer`, a request `Req`, a sharer record `Sharer`, and the control structure `TnodesMeta`.

The C arrays indexed by small ids are lists read with `getD`; the C sentinel `-1` of an index
is `none` where the index is a Lean `Nat`, and stays `-1` where the C code stores it in an
integer array (`element_nodes`, the padded tables, `runid`).
-/

namespace P4estTnodes

/-! ## The position schema -/

/-- The four corner positions, in forest child-id order.
Source: `n_ccorn` (part_000 l. 29)
Kind: D
Fidelity: exact -/
def nCcorn : List Nat := [0, 1, 2, 3]

/-- The element center.
Source: `n_center` (part_000 l. 30)
Kind: D
Fidelity: exact -/
def nCenter : Nat := 4

/-- The four element-face midpoints, in face order.
Source: `n_mface` (part_000 l. 31)
Kind: D
Fidelity: exact -/
def nMface : List Nat := [5, 6, 7, 8]

/-- The four center-to-corner midpoints.
Source: `n_cface` (part_000 l. 32)
Kind: D
Fidelity: exact -/
def nCface : List Nat := [9, 10, 11, 12]

/-- The center-to-split-face midpoints, one per face.
Source: `n_split` (part_000 l. 33)
Kind: D
Fidelity: exact -/
def nSplit : List Nat := [14, 17, 20, 22]

/-- The two half-face midpoints of a split face, per face.
Source: `n_hface` (part_000 l. 34)
Kind: D
Fidelity: exact -/
def nHface : List (List Nat) := [[13, 15], [16, 18], [19, 21], [23, 24]]

/-- Positions that only the element itself ever registers, so that no other process can
query them.
Source: `alwaysowned` (part_000 ll. 36–38)
Kind: D
Fidelity: exact -/
def alwaysowned : List Nat :=
  [0, 0, 0, 0, 1, 0, 0, 0, 0, 1, 1, 1, 1, 0, 1, 0, 0, 1, 0, 0, 1, 0, 1, 0, 0]

/-! ## The configuration tables -/

/-- Number of corner and face nodes of each configuration.
Source: `p4est_tnodes_config_count` (part_000 ll. 42–56)
Kind: D
Fidelity: exact -/
def p4estTnodesConfigCount : List (List Nat) :=
  [[4, 5], [6, 10], [6, 10], [7, 12], [6, 10], [7, 12], [7, 12], [8, 14], [6, 10],
   [7, 12], [7, 12], [8, 14], [7, 12], [8, 14], [8, 14], [9, 16], [4, 5], [5, 8]]

/-- The corner positions of each configuration, padded with `-1`.
Source: `p4est_tnodes_config_corners` (part_000 ll. 58–76)
Kind: D
Fidelity: exact -/
def p4estTnodesConfigCorners : List (List Int) :=
  [[0, 1, 2, 3, -1, -1, -1, -1, -1],
   [0, 1, 2, 3, 4, 5, -1, -1, -1],
   [0, 1, 2, 3, 4, 6, -1, -1, -1],
   [0, 1, 2, 3, 4, 5, 6, -1, -1],
   [0, 1, 2, 3, 4, 7, -1, -1, -1],
   [0, 1, 2, 3, 4, 5, 7, -1, -1],
   [0, 1, 2, 3, 4, 6, 7, -1, -1],
   [0, 1, 2, 3, 4, 5, 6, 7, -1],
   [0, 1, 2, 3, 4, 8, -1, -1, -1],
   [0, 1, 2, 3, 4, 5, 8, -1, -1],
   [0, 1, 2, 3, 4, 6, 8, -1, -1],
   [0, 1, 2, 3, 4, 5, 6, 8, -1],
   [0, 1, 2, 3, 4, 7, 8, -1, -1],
   [0, 1, 2, 3, 4, 5, 7, 8, -1],
   [0, 1, 2, 3, 4, 6, 7, 8, -1],
   [0, 1, 2, 3, 4, 5, 6, 7, 8],
   [0, 1, 2, 3, -1, -1, -1, -1, -1],
   [0, 1, 2, 3, 4, -1, -1, -1, -1]]

/-- The face positions of each configuration, padded with `-1`.
Source: `p4est_tnodes_config_faces` (part_000 ll. 79–97)
Kind: D
Fidelity: exact -/
def p4estTnodesConfigFaces : List (List Int) :=
  [[4, 5, 6, 7, 8, -1, -1, -1, -1, -1, -1, -1, -1, -1, -1, -1],
   [6, 7, 8, 9, 10, 11, 12, 13, 14, 15, -1, -1, -1, -1, -1, -1],
   [5, 7, 8, 9, 10, 11, 12, 16, 17, 18, -1, -1, -1, -1, -1, -1],
   [7, 8, 9, 10, 11, 12, 13, 14, 15, 16, 17, 18, -1, -1, -1, -1],
   [5, 6, 8, 9, 10, 11, 12, 19, 20, 21, -1, -1, -1, -1, -1, -1],
   [6, 8, 9, 10, 11, 12, 13, 14, 15, 19, 20, 21, -1, -1, -1, -1],
   [5, 8, 9, 10, 11, 12, 16, 17, 18, 19, 20, 21, -1, -1, -1, -1],
   [8, 9, 10, 11, 12, 13, 14, 15, 16, 17, 18, 19, 20, 21, -1, -1],
   [5, 6, 7, 9, 10, 11, 12, 22, 23, 24, -1, -1, -1, -1, -1, -1],
   [6, 7, 9, 10, 11, 12, 13, 14, 15, 22, 23, 24, -1, -1, -1, -1],
   [5, 7, 9, 10, 11, 12, 16, 17, 18, 22, 23, 24, -1, -1, -1, -1],
   [7, 9, 10, 11, 12, 13, 14, 15, 16, 17, 18, 22, 23, 24, -1, -1],
   [5, 6, 9, 10, 11, 12, 19, 20, 21, 22, 23, 24, -1, -1, -1, -1],
   [6, 9, 10, 11, 12, 13, 14, 15, 19, 20, 21, 22, 23, 24, -1, -1],
   [5, 9, 10, 11, 12, 16, 17, 18, 19, 20, 21, 22, 23, 24, -1, -1],
   [9, 10, 11, 12, 13, 14, 15, 16, 17, 18, 19, 20, 21, 22, 23, 24],
   [4, 5, 6, 7, 8, -1, -1, -1, -1, -1, -1, -1, -1, -1, -1, -1],
   [5, 6, 7, 8, 9, 10, 11, 12, -1, -1, -1, -1, -1, -1, -1, -1]]

/-- The table row of a configuration code: codes `0..16` are their own row, every other code
(the code `32` of the full style) reads row `17`.
Source: `assign_element_nodes` (part_000 ll. 1229–1235)
Kind: D
Fidelity: exact -/
def configIndex (config : Nat) : Nat := if config ≤ 16 then config else 17

/-- The positions a configuration populates: the first `count[0]` entries of its corner row,
and with faces the first `count[1]` entries of its face row, in the order the code visits them.
Source: `assign_element_nodes` (part_000 ll. 1243–1276)
Kind: D
Fidelity: exact -/
def configPositions (withFaces : Bool) (cind : Nat) : List Int :=
  ((p4estTnodesConfigCorners.getD cind []).take ((p4estTnodesConfigCount.getD cind []).getD 0 0))
    ++ if withFaces then
      (p4estTnodesConfigFaces.getD cind []).take ((p4estTnodesConfigCount.getD cind []).getD 1 0)
    else []

/-! ## Contributors and candidate nodes -/

/-- The codimension of a node under construction (`P4EST_CONNECT_FACE` or `_CORNER`).
Source: `p4est_connect_type_t` as used by `tnodes_cnode_t.bcon`
Kind: D
Fidelity: exact on the two values the algorithm uses -/
inductive Bcon
  /-- `P4EST_CONNECT_FACE`. -/
  | face
  /-- `P4EST_CONNECT_CORNER`. -/
  | corner
  deriving DecidableEq, Repr

/-- A single contributor process to a node under construction.
Source: `tnodes_contr_t` (part_000 ll. 101–107)
Kind: D
Fidelity: exact -/
structure Contr where
  /-- Position relative to the element. -/
  nodene : Nat
  /-- The referring process. -/
  rank : Nat
  /-- Element or ghost number on the referring process. -/
  le : Nat
  deriving DecidableEq, Repr, Inhabited

/-- A node under construction with its contributors. The C owner pointer into `contr` is an
index; `none` is the `NULL` of a node that has no contributor yet.
Source: `tnodes_cnode_t` (part_000 ll. 110–117)
Kind: D
Fidelity: exact (pointer as index) -/
structure Cnode where
  /-- Running count of the node, later its owner's number, later its local number. -/
  runid : Int
  /-- Codimension of the node. -/
  bcon : Bcon
  /-- Index of the owning contributor. -/
  owner : Option Nat
  /-- Contributing processes. -/
  contr : List Contr
  deriving DecidableEq, Repr

instance : Inhabited Cnode := ⟨⟨-1, .face, none, []⟩⟩

/-- The owning contributor of a node (the default contributor when there is none).
Source: `cnode->owner` dereferenced
Kind: D
Fidelity: exact -/
def Cnode.ownerContr (cn : Cnode) : Contr := cn.contr.getD (cn.owner.getD 0) default

/-! ## Peers, requests, sharers -/

/-- The two message tags of the exchange.
Source: `P4EST_COMM_TNODES_QUERY`, `P4EST_COMM_TNODES_REPLY`
Kind: D
Fidelity: exact -/
inductive Tag
  /-- A query from a higher rank to the owner. -/
  | query
  /-- The owner's reply. -/
  | reply
  deriving DecidableEq, Repr

/-- A nonblocking request as the algorithm sees it: no request, a posted send or receive, or
one the transport has completed and `MPI_Waitsome` has yet to report.
Source: `sc_MPI_Request` in `post_query_reply` / `wait_query_reply`
Kind: D
Fidelity: abstraction of the MPI request object -/
inductive Req
  /-- `sc_MPI_REQUEST_NULL`. -/
  | null
  /-- A posted `sc_MPI_Isend` to `dest` with `tag`. -/
  | send (dest : Nat) (tag : Tag)
  /-- A posted `sc_MPI_Irecv` from `source` with `tag`. -/
  | recv (source : Nat) (tag : Tag)
  /-- Completed by the transport, not yet reported. -/
  | ready
  deriving DecidableEq, Repr

/-- One communication partner and/or node sharer. The field `lastadd` is only read by
assertions and is left out.
Source: `tnodes_peer_t` (part_000 ll. 122–135)
Kind: D
Fidelity: exact on the fields the algorithm reads -/
structure Peer where
  /-- Rank of the peer process. -/
  rank : Nat
  /-- Protocol state: `1, 2, 0` towards a higher rank, `3, 4, 0` towards a lower one. -/
  done : Nat
  /-- Index of the corresponding sharer. -/
  sharind : Nat
  /-- Number of passively shared nodes. -/
  passive : Nat
  /-- Number of items in the message buffer. -/
  bufcount : Nat
  /-- Number of shared-in nodes of lower peers before this one. -/
  shacumul : Nat
  /-- Candidate index of each queried node. -/
  sharedno : List Nat
  /-- Send and receive buffer of both messages. -/
  querypos : List Int
  /-- The queried candidates, to be sorted by their owner's number. -/
  remosort : List Nat
  deriving DecidableEq, Repr, Inhabited

/-- A new peer as `peer_access` creates it.
Source: `peer_access` (part_000 ll. 212–224)
Kind: D
Fidelity: exact -/
def Peer.new (q : Nat) : Peer :=
  ⟨q, 0, 0, 0, 0, 0, [], [], []⟩

/-- The per-rank sharer record of the output. The C code fills it with `-1` bytes first.
Source: `p4est_lnodes_rank_t`, `push_sharer` (part_000 ll. 903–918)
Kind: D
Fidelity: exact -/
structure Sharer where
  /-- The sharing rank. -/
  rank : Nat
  /-- Local indices of the nodes shared with that rank. -/
  sharedNodes : List Nat
  /-- Start of the nodes of this process inside `sharedNodes`. -/
  sharedMineOffset : Int
  /-- Number of the nodes of this process inside `sharedNodes`. -/
  sharedMineCount : Int
  /-- Start of the rank's owned nodes in the local numbering. -/
  ownedOffset : Int
  /-- Number of the rank's owned nodes in the local numbering. -/
  ownedCount : Int
  deriving DecidableEq, Repr, Inhabited

/-- A new sharer record as `push_sharer` creates it.
Source: `push_sharer` (part_000 ll. 913–917)
Kind: D
Fidelity: exact -/
def Sharer.new (q : Nat) : Sharer := ⟨q, [], -1, -1, -1, -1⟩

/-! ## The control structure -/

/-- The state of one process, the fields of `tnodes_meta_t` and of the `p4est_lnodes_t` and
`p4est_tnodes_t` outputs that the modelled functions read or write. The ghost layer is the
list, per ghost id, of its owner rank (`ghost_rank`) and its number on that rank
(`piggy3.local_num`); `none` is a missing ghost layer. The `proc_peer` lookup table is
replaced by a search of `peers` by rank.
Source: `tnodes_meta_t` (part_000 ll. 140–170), `p4est_tnodes_new` (ll. 1437–1500)
Kind: D
Fidelity: exact on the fields the algorithm reads -/
structure TnodesMeta where
  /-- Default triangulation is full subdivision. -/
  fullStyle : Bool
  /-- Include triangle-face midpoints as nodes. -/
  withFaces : Bool
  /-- The number of processes. -/
  mpisize : Nat
  /-- This process. -/
  mpirank : Nat
  /-- The ghost layer: owner rank and remote element number per ghost. -/
  ghost : Option (List (Nat × Nat))
  /-- Number of peers that post no message. -/
  emptypeers : Nat
  /-- Index of the local sharer in `sharers`. -/
  locsharer : Nat
  /-- Nodes collected during traversal. -/
  construct : List Cnode
  /-- Owned candidates, sorted in `sort_allgather`. -/
  ownsort : List Nat
  /-- Running element number of the volume callback. -/
  lenum : Nat
  /-- Owned nodes. -/
  numOwned : Nat
  /-- Nodes we both own and share. -/
  numOwnedShared : Nat
  /-- Nodes we don't own but share. -/
  numShared : Nat
  /-- Nodes we share, owned or not. -/
  numAllShared : Nat
  /-- Global offsets of the owned nodes of every rank (`s + 1` entries). -/
  goffset : Nat → Nat
  /-- Number of local elements. -/
  numLocalElements : Nat
  /-- Node of each element slot, `-1` for none. -/
  elementNodes : Nat → Int
  /-- Hanging-face code of each element. -/
  faceCode : Nat → Nat
  /-- Configuration code of each element. -/
  configuration : Nat → Nat
  /-- Owned node count of the output. -/
  ownedCount : Nat
  /-- Local node count of the output. -/
  numLocalNodes : Nat
  /-- Global number of each shared-in node. -/
  nonlocalNodes : Nat → Int
  /-- Owned node count of every rank. -/
  globalOwnedCount : Nat → Nat
  /-- Global offset of this rank. -/
  globalOffset : Nat
  /-- The sharer records. -/
  sharers : List Sharer
  /-- Peers in creation order. -/
  peers : List Peer
  /-- Indices into `peers`, sorted by rank. -/
  sortp : List Nat
  /-- One request per peer. -/
  pereq : List Req

/-- Number of node slots per element: 9, or 25 with faces.
Source: `p4est_tnodes_new` (part_000 l. 1486)
Kind: D
Fidelity: exact -/
def TnodesMeta.vnodes (me : TnodesMeta) : Nat := if me.withFaces then 25 else 9

/-- The control structure at the start of `p4est_tnodes_new`: zeroed counters, empty arrays,
every element slot `-1`, every configuration and face code `0`.
Source: `p4est_tnodes_new` (part_000 ll. 1435–1498)
Kind: D
Fidelity: exact -/
def TnodesMeta.init (fullStyle withFaces : Bool) (mpisize mpirank : Nat)
    (ghost : Option (List (Nat × Nat))) (lel : Nat) : TnodesMeta where
  fullStyle := fullStyle
  withFaces := withFaces
  mpisize := mpisize
  mpirank := mpirank
  ghost := ghost
  emptypeers := 0
  locsharer := 0
  construct := []
  ownsort := []
  lenum := 0
  numOwned := 0
  numOwnedShared := 0
  numShared := 0
  numAllShared := 0
  goffset := fun _ => 0
  numLocalElements := lel
  elementNodes := fun _ => -1
  faceCode := fun _ => 0
  configuration := fun _ => 0
  ownedCount := 0
  numLocalNodes := 0
  nonlocalNodes := fun _ => -1
  globalOwnedCount := fun _ => 0
  globalOffset := 0
  sharers := []
  peers := []
  sortp := []
  pereq := []

end P4estTnodes
