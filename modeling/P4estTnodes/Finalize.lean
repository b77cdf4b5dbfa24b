import P4estTnodes.Wait

/-!
# Finalizing: `assign_element_nodes` and `populate_sharers`

After the exchange every candidate's running id is its final local number. The last two steps
of `p4est_tnodes_new` write the element nodes and the sharer records:

* `assignElementNodes`: for every element and every position of its configuration's table
  row, `set_element_node` reads the candidate at the slot and writes its local number. The
  code writes it to `element_nodes[le]`, the element index, not to the slot
  `element_nodes[le * vnodes + nodene]` it read; the model keeps that index.
* `populateSharers`: every owned node with two or more contributors goes into the record of
  each contributor; the offsets and counts of every record; then every shared-in node goes into
  one record. The code's loop over the contributors of a shared-in node only selects a record
  (`sharer = ...`), and the push stands after the loop: the node goes into the record of the
  last contributor of the list alone. The model keeps that.
-/

namespace P4estTnodes

/-! ## `assign_element_nodes` -/

/-- Give the slot read at `(le, nodene)` its final number, written at index `le`.
Source: `set_element_node` (part_000 ll. 1179–1210)
Kind: D
Fidelity: exact -/
def setElementNode (me : TnodesMeta) (le nodene : Nat) : TnodesMeta :=
  let lni := me.elementNodes (le * me.vnodes + nodene)
  let runid := (me.construct.getD lni.toNat default).runid
  { me with elementNodes := Function.update me.elementNodes le runid }

/-- The positions of one element's configuration row, in the order the code visits them.
Source: `assign_element_nodes` (part_000 ll. 1224–1284)
Kind: D
Fidelity: exact -/
def assignElement (me : TnodesMeta) (le : Nat) : TnodesMeta :=
  (configPositions me.withFaces (configIndex (me.configuration le))).foldl
    (fun m nodene => setElementNode m le nodene.toNat) me

/-- Assign the final numbers of the element nodes, element by element.
Source: `assign_element_nodes` (part_000 ll. 1212–1285)
Kind: D
Fidelity: exact -/
def assignElementNodes (me : TnodesMeta) : TnodesMeta :=
  (List.range me.numLocalElements).foldl assignElement me

/-! ## `populate_sharers` -/

/-- The index of the sharer record of rank `q`: the local one, or the peer's.
Source: `peer_sharer` (part_000 ll. 174–195), `locshare`
Kind: D -/
def TnodesMeta.sharerOf (me : TnodesMeta) (q : Nat) : Nat :=
  if q = me.mpirank then me.locsharer
  else ((me.peers.find? (·.rank == q)).getD default).sharind

/-- Append local node `v` to the shared nodes of record `si`.
Source: `sc_array_push (&sharer->shared_nodes)`
Kind: D -/
def TnodesMeta.pushShared (me : TnodesMeta) (si v : Nat) : TnodesMeta :=
  { me with sharers := me.sharers.modify (fun s => { s with sharedNodes := s.sharedNodes ++ [v] }) si }

/-- The owned node at local index `lcl`: into the record of every contributor, unless the node
is purely local.
Source: `populate_sharers` (part_000 ll. 1312–1334)
Kind: D
Fidelity: exact -/
def populateOwned (me : TnodesMeta) (lcl c : Nat) : TnodesMeta :=
  let cn := me.construct.getD c default
  if cn.contr.length = 1 then me
  else cn.contr.foldl (fun m e => m.pushShared (m.sharerOf e.rank) lcl) me

/-- The offsets and counts of the record of the peer at index `i`.
Source: `populate_sharers` (part_000 ll. 1345–1360)
Kind: D
Fidelity: exact -/
def setSharerCounts (me : TnodesMeta) (i : Nat) : TnodesMeta :=
  let tp := me.peers.getD i default
  { me with sharers := me.sharers.modify (fun s =>
      { s with sharedMineOffset := 0, sharedMineCount := s.sharedNodes.length,
               ownedOffset := me.numOwned + tp.shacumul,
               ownedCount := if tp.rank < me.mpirank then tp.bufcount else 0 }) tp.sharind }

/-- The shared-in nodes of the peer at index `i`, from local index `lni` on: each goes into the
record the contributor loop selects last.
Source: `populate_sharers` (part_000 ll. 1363–1393)
Kind: D
Fidelity: exact for the nonempty contributor lists the code asserts -/
def populatePeer (me : TnodesMeta) (i lni : Nat) : TnodesMeta × Nat :=
  let tp := me.peers.getD i default
  if tp.rank < me.mpirank then
    ((List.range tp.bufcount).foldl (fun m lcl =>
        let cn := m.construct.getD (tp.remosort.getD lcl 0) default
        let sharer := cn.contr.foldl (fun _ e => m.sharerOf e.rank) m.locsharer
        m.pushShared sharer (lni + lcl)) me, lni + tp.bufcount)
  else (me, lni)

/-- Fill the sharer records.
Source: `populate_sharers` (part_000 ll. 1287–1398)
Kind: D
Fidelity: exact -/
def populateSharers (me : TnodesMeta) : TnodesMeta :=
  if me.ghost = none ∨ me.peers = [] then me
  else
    let me1 := me.ownsort.enum.foldl (fun m x => populateOwned m x.1 x.2) me
    let me2 := { me1 with sharers := me1.sharers.modify (fun s =>
      { s with sharedMineOffset := 0, ownedOffset := 0, sharedMineCount := me1.numOwnedShared,
               ownedCount := me1.numOwned }) me1.locsharer }
    let me3 := me2.sortp.foldl setSharerCounts me2
    (me3.sortp.foldl (fun acc i => populatePeer acc.1 i acc.2) (me3, me3.numOwned)).1

end P4estTnodes
