import P4estTnodes.Register

/-!
# Ownership, the owned sort and the peer records: from the traversal to the exchange

After the traversal each process holds its construction table. This file models, as the code
computes them, the local steps between the traversal and the message exchange:

* `ownedQueryReply` (`owned_query_reply`): every owned candidate goes to `ownsort` and counts
  one reply per remote contributor; a remotely owned candidate with a local contributor counts
  passive sharers and one query to its owner, with the owner's slot `le * vnodes + nodene` as
  the query entry; a candidate with no local contributor is dropped.
* `sortAllgather` (`sort_allgather`): `ownsort` sorted by the owner slot (`cnode_compare`), the
  running ids set to the sorted positions, and the prefix sums of the gathered owned counts.
* `sortPeers` (`sort_peers`): the peers in rank order, `shacumul`, and the sharer records.
* `postQueryReply` (`post_query_reply`): the first request of every peer.

The peer of a rank is found by searching `peers` for it (the code keeps the lookup table
`proc_peer`); a peer pointer is the peer's rank. `sc_array_sort` is modelled by the structural
`List.insertionSort`, which yields the same list whenever the keys are pairwise distinct. The
running id `cnode->runid` of candidate `zz` equals `zz` during `owned_query_reply` (the code
asserts it), so the model passes `zz`.
-/

namespace P4estTnodes

/-! ## Peers -/

/-- Does the process hold a peer record for rank `q`?
Source: `proc_peer[q] != 0` (part_000 l. 212)
Kind: D -/
def TnodesMeta.hasPeer (me : TnodesMeta) (q : Nat) : Bool := me.peers.any (·.rank == q)

/-- Find or create the peer record of rank `q`.
Source: `peer_access` (part_000 ll. 200–230)
Kind: D
Fidelity: exact (the lookup table replaced by a search) -/
def peerAccess (me : TnodesMeta) (q : Nat) : TnodesMeta :=
  if me.hasPeer q then me else { me with peers := me.peers ++ [Peer.new q] }

/-- Apply `f` to the peer record of rank `q`.
Source: the peer pointer `peer_access` returns
Kind: D -/
def TnodesMeta.modifyPeer (me : TnodesMeta) (q : Nat) (f : Peer → Peer) : TnodesMeta :=
  { me with peers := me.peers.map fun p => if p.rank = q then f p else p }

/-- The local owner will receive one more query entry from rank `q`.
Source: `peer_add_reply` (part_000 ll. 232–244)
Kind: D
Fidelity: exact (`lastadd` is only read by assertions) -/
def peerAddReply (me : TnodesMeta) (q : Nat) : TnodesMeta :=
  me.modifyPeer q fun p => { p with bufcount := p.bufcount + 1 }

/-- Query the remote owner `q` for candidate `lni` at its slot `epos`.
Source: `peer_add_query` (part_000 ll. 246–271)
Kind: D
Fidelity: exact -/
def peerAddQuery (me : TnodesMeta) (q lni : Nat) (epos : Int) : TnodesMeta :=
  me.modifyPeer q fun p =>
    { p with bufcount := p.bufcount + 1, querypos := p.querypos ++ [epos],
             sharedno := p.sharedno ++ [lni] }

/-- Set the running id of candidate `c`.
Source: `cnode->runid = v`
Kind: D -/
def TnodesMeta.setRunid (me : TnodesMeta) (c : Nat) (v : Int) : TnodesMeta :=
  { me with construct := me.construct.modify (fun cn => { cn with runid := v }) c }

/-! ## `owned_query_reply` -/

/-- The contributor ranks of a candidate.
Source: `cnode->contr`
Kind: D -/
def Cnode.ranks (cn : Cnode) : List Nat := cn.contr.map (·.rank)

/-- Candidate `c` has a local contributor (`withloc`).
Source: `owned_query_reply` (part_000 ll. 781–788)
Kind: D -/
def TnodesMeta.isLocal (me : TnodesMeta) (c : Nat) : Prop :=
  me.mpirank ∈ (me.construct.getD c default).ranks

instance (me : TnodesMeta) (c : Nat) : Decidable (me.isLocal c) :=
  inferInstanceAs (Decidable (_ ∈ _))

/-- The rank of the owning contributor of candidate `c`.
Source: `cnode->owner->rank`
Kind: D -/
def TnodesMeta.ownerRank (me : TnodesMeta) (c : Nat) : Nat :=
  (me.construct.getD c default).ownerContr.rank

/-- The query entry of candidate `c`: the owner's element slot.
Source: `owned_query_reply` (part_000 l. 808)
Kind: D -/
def TnodesMeta.eposOf (me : TnodesMeta) (c : Nat) : Int :=
  (me.construct.getD c default).ownerContr.le * me.vnodes +
    (me.construct.getD c default).ownerContr.nodene

/-- One more reply to every remote contributor of an owned candidate.
Source: `owned_query_reply` (part_000 ll. 769–776)
Kind: D
Fidelity: exact -/
def ownedAddReplies (me : TnodesMeta) (contr : List Contr) : TnodesMeta :=
  contr.foldl (fun m c =>
    if c.rank ≠ m.mpirank then peerAddReply (peerAccess m c.rank) c.rank else m) me

/-- One more passively shared node for every remote contributor other than the owner.
Source: `owned_query_reply` (part_000 ll. 790–800)
Kind: D
Fidelity: exact -/
def remoteAddPassive (me : TnodesMeta) (contr : List Contr) (orank : Nat) : TnodesMeta :=
  contr.foldl (fun m c =>
    if c.rank ≠ m.mpirank ∧ c.rank ≠ orank then
      (peerAccess m c.rank).modifyPeer c.rank fun p => { p with passive := p.passive + 1 }
    else m) me

/-- The loop body of `owned_query_reply` for candidate `zz` (MPI build).
Source: `owned_query_reply` (part_000 ll. 751–819)
Kind: D
Fidelity: exact -/
def ownedQueryReplyNode (me : TnodesMeta) (zz : Nat) : TnodesMeta :=
  let cn := me.construct.getD zz default
  let owner := cn.ownerContr
  if owner.rank = me.mpirank then
    let me1 := { me with ownsort := me.ownsort ++ [zz], numOwned := me.numOwned + 1 }
    let me2 := ownedAddReplies me1 cn.contr
    let me3 := if cn.contr.length > 1 then { me2 with numOwnedShared := me2.numOwnedShared + 1 }
      else me2
    me3.setRunid zz (-1)
  else if !cn.contr.any (·.rank == me.mpirank) then
    me.setRunid zz (-1)
  else
    let me1 := remoteAddPassive me cn.contr owner.rank
    let me2 := peerAddQuery (peerAccess me1 owner.rank) owner.rank zz
      (owner.le * me.vnodes + owner.nodene)
    let me3 := me2.modifyPeer owner.rank fun p => { p with remosort := p.remosort ++ [zz] }
    { me3 with numShared := me3.numShared + 1 }.setRunid zz (-1)

/-- Sort the candidates by owner, post the reply and query counts, drop remote-only
candidates, and reset every running id to `-1`.
Source: `owned_query_reply` (part_000 ll. 729–823)
Kind: D
Fidelity: exact -/
def ownedQueryReply (me : TnodesMeta) : TnodesMeta :=
  let m := (List.range me.construct.length).foldl ownedQueryReplyNode me
  { m with numAllShared := m.numOwnedShared + m.numShared }

/-! ## `sort_allgather` -/

/-- The owner slot `(le, nodene)` of candidate `c`, the key of `cnode_compare`.
Source: `cnode_compare` (part_000 ll. 700–727)
Kind: D -/
def slotKey (cs : List Cnode) (c : Nat) : Nat × Nat :=
  ((cs.getD c default).ownerContr.le, (cs.getD c default).ownerContr.nodene)

/-- `cnode_compare (c1, c2) <= 0`: the owner slots compared by element, then by position.
Source: `cnode_compare` (part_000 ll. 700–727)
Kind: D
Fidelity: exact -/
def cnodeLe (cs : List Cnode) (a b : Nat) : Prop :=
  (slotKey cs a).1 < (slotKey cs b).1 ∨
    ((slotKey cs a).1 = (slotKey cs b).1 ∧ (slotKey cs a).2 ≤ (slotKey cs b).2)

instance (cs : List Cnode) : DecidableRel (cnodeLe cs) := fun _ _ =>
  inferInstanceAs (Decidable (_ ∨ _))

instance (cs : List Cnode) : IsTotal Nat (cnodeLe cs) := ⟨fun a b => by unfold cnodeLe; omega⟩

instance (cs : List Cnode) : IsTrans Nat (cnodeLe cs) :=
  ⟨fun a b c => by unfold cnodeLe; omega⟩

/-- The global offsets: `goffset[0] = 0`, `goffset[q + 1] = goffset[q] + count[q]`.
Source: `sort_allgather` (part_000 ll. 855–858)
Kind: D
Fidelity: exact -/
def prefixSum (count : Nat → Nat) : Nat → Nat
  | 0 => 0
  | q + 1 => prefixSum count q + count q

/-- Number the owned candidates in sorted order.
Source: `sort_allgather` (part_000 ll. 838–841)
Kind: D -/
def numberOwned (me : TnodesMeta) : List Nat → Nat → TnodesMeta
  | [], _ => me
  | c :: cs, zz => numberOwned (me.setRunid c zz) cs (zz + 1)

/-- Sort the owned candidates and number them, then take the owned counts of all processes
(`gathered`, the result of the `Allgather`) and their prefix sums.
Source: `sort_allgather` (part_000 ll. 825–860)
Kind: D
Fidelity: exact (`nonlocal_nodes` starts as `-1`, as in the debug build) -/
def sortAllgather (me : TnodesMeta) (gathered : Nat → Nat) : TnodesMeta :=
  let os := me.ownsort.insertionSort (cnodeLe me.construct)
  let m := numberOwned { me with ownsort := os } os 0
  { m with ownedCount := me.numOwned, numLocalNodes := me.numOwned + me.numShared,
           nonlocalNodes := fun _ => -1, globalOwnedCount := gathered,
           goffset := prefixSum gathered, globalOffset := prefixSum gathered me.mpirank }

/-! ## `sort_peers` -/

/-- `peer_compare (p1, p2) <= 0`: peers by rank.
Source: `peer_compare` (part_000 ll. 864–870)
Kind: D -/
def peerLe (ps : List Peer) (i j : Nat) : Prop := (ps.getD i default).rank ≤ (ps.getD j default).rank

instance (ps : List Peer) : DecidableRel (peerLe ps) := fun _ _ =>
  inferInstanceAs (Decidable (_ ≤ _))

instance (ps : List Peer) : IsTotal Nat (peerLe ps) := ⟨fun a b => by unfold peerLe; omega⟩

instance (ps : List Peer) : IsTrans Nat (peerLe ps) := ⟨fun a b c => by unfold peerLe; omega⟩

/-- Set `shacumul` along the peers in rank order: the count of shared-in nodes of the lower
peers before each.
Source: `sort_peers` (part_000 ll. 942–949)
Kind: D -/
def setShacumul (mpirank : Nat) (ps : List Peer) : List Nat → Nat → List Peer
  | [], _ => ps
  | i :: is, nonlofs =>
    let p := ps.getD i default
    setShacumul mpirank (ps.set i { p with shacumul := nonlofs }) is
      (if p.rank < mpirank then nonlofs + p.bufcount else nonlofs)

/-- Push an empty sharer record for `rank`; its index is the returned length.
Source: `push_sharer` (part_000 ll. 903–918)
Kind: D
Fidelity: exact -/
def pushSharer (me : TnodesMeta) (rank : Nat) : TnodesMeta × Nat :=
  ({ me with sharers := me.sharers ++ [Sharer.new rank] }, me.sharers.length)

/-- Push the sharer of the peer at index `i` and record its index in the peer.
Source: `sort_peers` (part_000 ll. 958–974)
Kind: D -/
def pushPeerSharer (me : TnodesMeta) (i : Nat) : TnodesMeta :=
  let p := me.peers.getD i default
  let r := pushSharer me p.rank
  { r.1 with peers := r.1.peers.set i { p with sharind := r.2 } }

/-- Sort the peers by rank, compute `shacumul`, and create the sharer records: the lower
peers, the local process, the higher peers, in rank order.
Source: `sort_peers` (part_000 ll. 922–977)
Kind: D
Fidelity: exact -/
def sortPeers (me : TnodesMeta) : TnodesMeta :=
  if me.ghost = none ∨ me.peers = [] then me
  else
    let sortp := (List.range me.peers.length).insertionSort (peerLe me.peers)
    let me1 := { me with sortp := sortp,
                         peers := setShacumul me.mpirank me.peers sortp 0 }
    let lower := sortp.takeWhile fun i => !decide (me.mpirank < (me1.peers.getD i default).rank)
    let higher := sortp.dropWhile fun i => !decide (me.mpirank < (me1.peers.getD i default).rank)
    let me2 := lower.foldl pushPeerSharer me1
    let loc := pushSharer me2 me.mpirank
    higher.foldl pushPeerSharer { loc.1 with locsharer := loc.2 }

/-! ## `post_query_reply` -/

/-- Post the first request towards one peer: nothing for a purely passive peer, a receive of
the query from a higher rank, the send of the query to a lower rank.
Source: `post_query_reply` (part_000 ll. 1000–1032)
Kind: D
Fidelity: exact -/
def postPeer (me : TnodesMeta) (iz : Nat) : TnodesMeta :=
  let p := me.peers.getD iz default
  if p.bufcount = 0 then
    { me with pereq := me.pereq.set iz .null, emptypeers := me.emptypeers + 1 }
  else if p.rank > me.mpirank then
    { me with pereq := me.pereq.set iz (.recv p.rank .query),
              peers := me.peers.set iz { p with querypos := List.replicate p.bufcount 0, done := 1 } }
  else
    { me with pereq := me.pereq.set iz (.send p.rank .query),
              peers := me.peers.set iz { p with done := 3 } }

/-- Post the first round of messages, peer by peer in creation order.
Source: `post_query_reply` (part_000 ll. 979–1034)
Kind: D
Fidelity: exact -/
def postQueryReply (me : TnodesMeta) : TnodesMeta :=
  if me.ghost = none ∨ me.peers = [] then me
  else
    (List.range me.peers.length).foldl postPeer
      { me with pereq := List.replicate me.peers.length .null }

end P4estTnodes
