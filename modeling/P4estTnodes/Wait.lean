import P4estTnodes.Owned

/-!
# The body of `wait_query_reply`: what a process does with one completed request

`wait_query_reply` loops on `MPI_Waitsome` and handles each reported request `j` by the state
`done` of peer `j`:

* towards a higher rank, `1` (the query has arrived): translate every query entry `epos`
  into the running id of the candidate at `element_nodes[epos]`, send the translated buffer
  back as the reply, go to `2`; `2` (the reply has been delivered): go to `0`, one peer less;
* towards a lower rank, `3` (the query has been delivered): post the receive of the reply, go
  to `4`; `4` (the reply has arrived): give every queried candidate the owner's number, sort
  the queried candidates by it, store their global numbers in `nonlocal_nodes` from
  `shacumul` on, renumber them `num_owned + shacumul + i`, go to `0`, one peer less.

`waitReport` is that body; the message it posts is read off the request it leaves
(`.send dest tag`, with the peer's `querypos` as the buffer). A completed request is
`sc_MPI_REQUEST_NULL` when `MPI_Waitsome` reports it; the model sets it so.
-/

namespace P4estTnodes

/-- `rnode_compare (c1, c2) <= 0`: queried candidates by their owner's number.
Source: `rnode_compare` (part_000 ll. 872–901)
Kind: D
Fidelity: exact -/
def rnodeLe (cs : List Cnode) (a b : Nat) : Prop := (cs.getD a default).runid ≤ (cs.getD b default).runid

instance (cs : List Cnode) : DecidableRel (rnodeLe cs) := fun _ _ =>
  inferInstanceAs (Decidable (_ ≤ _))

instance (cs : List Cnode) : IsTotal Nat (rnodeLe cs) := ⟨fun a b => by unfold rnodeLe; omega⟩

instance (cs : List Cnode) : IsTrans Nat (rnodeLe cs) := ⟨fun a b c => by unfold rnodeLe; omega⟩

/-- The owner's answer to one query entry: the running id of the candidate registered at the
element slot `epos`.
Source: `wait_query_reply` (part_000 ll. 1083–1101)
Kind: D
Fidelity: exact -/
def translateEntry (me : TnodesMeta) (epos : Int) : Int :=
  (me.construct.getD (me.elementNodes epos.toNat).toNat default).runid

/-- Give every queried candidate the owner's number from the reply.
Source: `wait_query_reply` (part_000 ll. 1131–1139)
Kind: D -/
def setReplied (me : TnodesMeta) : List (Nat × Int) → TnodesMeta
  | [] => me
  | (lni, oind) :: rest => setReplied (me.setRunid lni oind) rest

/-- Store the global numbers of the queried candidates of owner `gof`'s block, in sorted
order, and renumber them locally.
Source: `wait_query_reply` (part_000 ll. 1142–1162)
Kind: D -/
def storeNonlocal (gof : Int) (shacumul : Nat) (me : TnodesMeta) : List Nat → Nat → TnodesMeta
  | [], _ => me
  | c :: cs, lcl =>
    let nonloc := shacumul + lcl
    let gni := gof + (me.construct.getD c default).runid
    storeNonlocal gof shacumul
      ({ me with nonlocalNodes := Function.update me.nonlocalNodes nonloc gni }.setRunid c
        (me.numOwned + nonloc)) cs (lcl + 1)

/-- The state once the queried candidates of the peer at index `j` hold the owner's numbers
from the reply in its `querypos`.
Source: `wait_query_reply` (part_000 ll. 1131–1139)
Kind: D -/
def repliedState (me : TnodesMeta) (j : Nat) : TnodesMeta :=
  let p := me.peers.getD j default
  setReplied me ((p.sharedno.zip p.querypos).take p.bufcount)

/-- The queried candidates of the peer at index `j`, sorted by the owner's numbers.
Source: `wait_query_reply` (part_000 l. 1140)
Kind: D -/
def sortedReplies (me : TnodesMeta) (j : Nat) : List Nat :=
  (me.peers.getD j default).remosort.insertionSort (rnodeLe (repliedState me j).construct)

/-- Process the reply of the lower peer at index `j`, received in its `querypos`.
Source: `wait_query_reply` (part_000 ll. 1127–1165)
Kind: D
Fidelity: exact -/
def processReply (me : TnodesMeta) (j : Nat) : TnodesMeta :=
  let p := me.peers.getD j default
  let me2 := storeNonlocal (me.goffset p.rank) p.shacumul (repliedState me j) (sortedReplies me j) 0
  { me2 with peers := me2.peers.set j { p with remosort := sortedReplies me j, done := 0 } }

/-- Handle the completed request of peer `j`; the flag says whether the peer is finished.
Source: `wait_query_reply` (part_000 ll. 1070–1166)
Kind: D
Fidelity: exact -/
def waitReport (me : TnodesMeta) (j : Nat) : TnodesMeta × Bool :=
  let me0 := { me with pereq := me.pereq.set j .null }
  let p := me.peers.getD j default
  if p.rank > me.mpirank then
    if p.done = 1 then
      ({ me0 with pereq := me0.pereq.set j (.send p.rank .reply),
                  peers := me.peers.set j
                    { p with querypos := p.querypos.map (translateEntry me), done := 2 } }, false)
    else ({ me0 with peers := me.peers.set j { p with done := 0 } }, true)
  else if p.done = 3 then
    ({ me0 with pereq := me0.pereq.set j (.recv p.rank .reply),
                peers := me.peers.set j { p with done := 4 } }, false)
  else (processReply me0 j, true)

end P4estTnodes
