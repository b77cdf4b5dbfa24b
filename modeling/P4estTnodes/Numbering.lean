import P4estTnodes.System

/-!
# Consistent views, and the query entries an owner receives

The processes of one run see one global mesh. `ConsistentViews P ms gnode` says what that
means for their traversal results `ms r`: `gnode r c` names the global node of candidate `c`
on process `r`, and

* every process has at most one candidate with a local contributor per global node;
* processes with a local contributor to the same node record the same contributor ranks;
* every contribution `(q, le, nodene)` a process records is a slot that `q` registers locally
  for the same node: `q`'s `element_nodes` at `le * vnodes + nodene` holds `q`'s candidate of
  that node.

The numbering results of the exchange are proved under these hypotheses. This file also shows
that the range check of `wait_query_reply` on a received query entry is not implied by them:
the entry is an element slot of the owner, bounded by `vnodes` times the owner's number of
elements, while the check bounds it by `vnodes` times the owner's number of owned nodes
(`waitQueryReply_eposBound_brick`).
-/

namespace P4estTnodes

/-- Process view `m` has one candidate with a local contributor per node of `g`.
Source: the hypothesis of the global numbering
Kind: D -/
def LocalUnique (m : TnodesMeta) (g : Nat → Nat) : Prop :=
  ∀ c < m.construct.length, ∀ c' < m.construct.length, m.isLocal c → m.isLocal c' →
    g c = g c' → c = c'

instance (m : TnodesMeta) (g : Nat → Nat) : Decidable (LocalUnique m g) :=
  inferInstanceAs (Decidable (∀ c < m.construct.length, _))

/-- Every contributor rank of `a` is one of `b`.
Source: none: infrastructure
Kind: D -/
def Cnode.RanksIn (a b : Cnode) : Prop := ∀ q ∈ a.ranks, q ∈ b.ranks

instance (a b : Cnode) : Decidable (a.RanksIn b) := inferInstanceAs (Decidable (∀ q ∈ a.ranks, _))

/-- Every contributor rank one process view records for a node both views contribute to is
recorded by the other view too.
Source: the hypothesis of the global numbering
Kind: D -/
def SameRanks (m m' : TnodesMeta) (g g' : Nat → Nat) : Prop :=
  ∀ c < m.construct.length, ∀ c' < m'.construct.length, m.isLocal c → m'.isLocal c' →
    g c = g' c' → (m.construct.getD c default).RanksIn (m'.construct.getD c' default)

instance (m m' : TnodesMeta) (g g' : Nat → Nat) : Decidable (SameRanks m m' g g') :=
  inferInstanceAs (Decidable (∀ c < m.construct.length, _))

/-- The slot `(le, nodene)` of view `m` holds a local candidate of node `n`.
Source: the hypothesis of the global numbering
Kind: D -/
def SlotOf (m : TnodesMeta) (g : Nat → Nat) (le nodene n : Nat) : Prop :=
  ∃ c' < m.construct.length, m.elementNodes (le * m.vnodes + nodene) = c' ∧ m.isLocal c' ∧
    g c' = n

instance (m : TnodesMeta) (g : Nat → Nat) (le nodene n : Nat) : Decidable (SlotOf m g le nodene n) :=
  inferInstanceAs (Decidable (∃ c' < m.construct.length, _))

/-- Every contribution that process `r` records for a node it contributes to is a local slot
of the contributing process for the same node.
Source: the hypothesis of the global numbering
Kind: D -/
def SlotsReal (P : Nat) (ms : Nat → TnodesMeta) (gnode : Nat → Nat → Nat) (r : Nat) : Prop :=
  ∀ c < (ms r).construct.length, (ms r).isLocal c →
    ∀ e ∈ ((ms r).construct.getD c default).contr,
      e.rank < P ∧ SlotOf (ms e.rank) (gnode e.rank) e.le e.nodene (gnode r c)

instance (P : Nat) (ms : Nat → TnodesMeta) (gnode : Nat → Nat → Nat) (r : Nat) :
    Decidable (SlotsReal P ms gnode r) :=
  inferInstanceAs (Decidable (∀ c < (ms r).construct.length, _))

/-- The traversal results of `P` processes are views of one global node relation `gnode`.
Source: the hypothesis of the global numbering (spec §5, §9)
Kind: D -/
structure ConsistentViews (P : Nat) (ms : Nat → TnodesMeta) (gnode : Nat → Nat → Nat) :
    Prop where
  /-- Process `r` knows its rank and the number of processes. -/
  rank : ∀ r < P, (ms r).mpirank = r ∧ (ms r).mpisize = P
  /-- All processes use the same slot layout. -/
  layout : ∀ r < P, (ms r).withFaces = (ms 0).withFaces
  /-- One candidate with a local contributor per node and process. -/
  unique : ∀ r < P, LocalUnique (ms r) (gnode r)
  /-- The processes that contribute to a node record the same contributor ranks (each
  direction is the field at `r, r'` and at `r', r`). -/
  sameRanks : ∀ r < P, ∀ r' < P, SameRanks (ms r) (ms r') (gnode r) (gnode r')
  /-- Every recorded contribution is a local slot of its process for the same node. -/
  slots : ∀ r < P, SlotsReal P ms gnode r

/-! ## A query entry beyond `vnodes * owned_count` -/

/-- A 2 × 1 brick of trees, periodic in `x`, each tree refined once: eight elements in a 4 × 2
grid, numbered tree by tree in Morton order. Process 0 holds elements 0–4, process 1 elements
5 and 6, process 2 element 7. The events of each process: its volumes, then the faces and the
corners touching its elements, sides in the iterator's order (ghosts by owner rank, then by
element).
Source: none: input data
Kind: D -/
def brickEvents : Nat → List Event
  | 0 => [.volume ⟨1, 0⟩,
      .volume ⟨1, 1⟩,
      .volume ⟨1, 2⟩,
      .volume ⟨1, 3⟩,
      .volume ⟨1, 0⟩,
      .face ⟨0, [.full ⟨1, false, 0⟩, .full ⟨0, false, 1⟩]⟩,
      .face ⟨0, [.full ⟨1, false, 1⟩, .full ⟨0, false, 4⟩]⟩,
      .face ⟨0, [.full ⟨1, false, 4⟩, .full ⟨0, true, 0⟩]⟩,
      .face ⟨0, [.full ⟨1, true, 0⟩, .full ⟨0, false, 0⟩]⟩,
      .face ⟨0, [.full ⟨1, false, 2⟩, .full ⟨0, false, 3⟩]⟩,
      .face ⟨0, [.full ⟨1, false, 3⟩, .full ⟨0, true, 1⟩]⟩,
      .face ⟨0, [.full ⟨1, true, 2⟩, .full ⟨0, false, 2⟩]⟩,
      .face ⟨0, [.full ⟨2, false, 0⟩]⟩,
      .face ⟨0, [.full ⟨3, false, 0⟩, .full ⟨2, false, 2⟩]⟩,
      .face ⟨0, [.full ⟨3, false, 2⟩]⟩,
      .face ⟨0, [.full ⟨2, false, 1⟩]⟩,
      .face ⟨0, [.full ⟨3, false, 1⟩, .full ⟨2, false, 3⟩]⟩,
      .face ⟨0, [.full ⟨3, false, 3⟩]⟩,
      .face ⟨0, [.full ⟨2, false, 4⟩]⟩,
      .face ⟨0, [.full ⟨3, false, 4⟩, .full ⟨2, true, 1⟩]⟩,
      .corner [⟨1, true, 0⟩, ⟨0, false, 0⟩],
      .corner [⟨3, true, 0⟩, ⟨2, false, 0⟩, ⟨1, true, 2⟩, ⟨0, false, 2⟩],
      .corner [⟨3, true, 2⟩, ⟨2, false, 2⟩],
      .corner [⟨1, false, 0⟩, ⟨0, false, 1⟩],
      .corner [⟨3, false, 0⟩, ⟨2, false, 1⟩, ⟨1, false, 2⟩, ⟨0, false, 3⟩],
      .corner [⟨3, false, 2⟩, ⟨2, false, 3⟩],
      .corner [⟨1, false, 1⟩, ⟨0, false, 4⟩],
      .corner [⟨3, false, 1⟩, ⟨2, false, 4⟩, ⟨1, false, 3⟩, ⟨0, true, 1⟩],
      .corner [⟨3, false, 3⟩, ⟨2, true, 1⟩],
      .corner [⟨1, false, 4⟩, ⟨0, true, 0⟩],
      .corner [⟨3, false, 4⟩, ⟨2, true, 0⟩, ⟨1, true, 1⟩, ⟨0, true, 2⟩]]
  | 1 => [.volume ⟨1, 1⟩,
      .volume ⟨1, 2⟩,
      .face ⟨0, [.full ⟨1, true, 4⟩, .full ⟨0, false, 0⟩]⟩,
      .face ⟨0, [.full ⟨1, false, 0⟩, .full ⟨0, true, 0⟩]⟩,
      .face ⟨0, [.full ⟨1, true, 3⟩, .full ⟨0, false, 1⟩]⟩,
      .face ⟨0, [.full ⟨1, false, 1⟩, .full ⟨0, true, 5⟩]⟩,
      .face ⟨0, [.full ⟨3, true, 4⟩, .full ⟨2, false, 1⟩]⟩,
      .face ⟨0, [.full ⟨3, false, 1⟩]⟩,
      .face ⟨0, [.full ⟨2, false, 0⟩]⟩,
      .face ⟨0, [.full ⟨3, false, 0⟩, .full ⟨2, true, 5⟩]⟩,
      .corner [⟨1, false, 0⟩, ⟨0, true, 0⟩],
      .corner [⟨3, false, 0⟩, ⟨2, true, 0⟩, ⟨1, true, 5⟩, ⟨0, true, 2⟩],
      .corner [⟨3, true, 1⟩, ⟨2, true, 4⟩, ⟨1, true, 3⟩, ⟨0, false, 1⟩],
      .corner [⟨3, true, 3⟩, ⟨2, false, 1⟩],
      .corner [⟨1, true, 4⟩, ⟨0, false, 0⟩],
      .corner [⟨3, true, 4⟩, ⟨2, false, 0⟩, ⟨1, false, 1⟩, ⟨0, true, 5⟩],
      .corner [⟨3, false, 1⟩, ⟨2, true, 5⟩]]
  | _ => [.volume ⟨1, 3⟩,
      .face ⟨0, [.full ⟨1, true, 4⟩, .full ⟨0, false, 0⟩]⟩,
      .face ⟨0, [.full ⟨1, false, 0⟩, .full ⟨0, true, 1⟩]⟩,
      .face ⟨0, [.full ⟨3, true, 3⟩, .full ⟨2, false, 0⟩]⟩,
      .face ⟨0, [.full ⟨3, false, 0⟩]⟩,
      .corner [⟨3, true, 3⟩, ⟨2, true, 0⟩, ⟨1, false, 0⟩, ⟨0, true, 1⟩],
      .corner [⟨3, false, 0⟩, ⟨2, true, 1⟩],
      .corner [⟨3, true, 2⟩, ⟨2, true, 3⟩, ⟨1, true, 4⟩, ⟨0, false, 0⟩],
      .corner [⟨3, true, 4⟩, ⟨2, false, 0⟩]]

/-- The ghost layers of the brick: owner rank and remote element number.
Source: none: input data
Kind: D -/
def brickGhosts : Nat → List (Nat × Nat)
  | 0 => [(1, 0), (1, 1), (2, 0)]
  | 1 => [(0, 0), (0, 1), (0, 2), (0, 3), (0, 4), (2, 0)]
  | _ => [(0, 0), (0, 2), (0, 4), (1, 0), (1, 1)]

/-- The traversal results of the three processes, default style without faces.
Source: none: input data
Kind: D -/
def brickViews (r : Nat) : TnodesMeta :=
  traverse p4estFaceCorners
    (TnodesMeta.init false false 3 r (some (brickGhosts r)) ([5, 2, 1].getD r 0)) (brickEvents r)

/-- The grid vertex of corner `k` of local element `le` of process `r` (row-major, 4 × 3).
Source: none: input data
Kind: D -/
def brickVertex (r le k : Nat) : Nat :=
  (([[[0, 1, 4, 5], [1, 2, 5, 6], [4, 5, 8, 9], [5, 6, 9, 10], [2, 3, 6, 7]],
     [[3, 0, 7, 4], [6, 7, 10, 11]], [[7, 4, 11, 8]]].getD r []).getD le []).getD k 0

/-- The global node of a candidate of the brick: the vertex of its local contribution.
Source: none: input data
Kind: D -/
def brickNode (r c : Nat) : Nat :=
  let e := (((brickViews r).construct.getD c default).contr.find? (·.rank == r)).getD default
  brickVertex r e.le e.nodene

set_option maxRecDepth 100000 in
/-- **A query entry fails the owner's range check.** In the brick, process 1 owns a single
node, the top corner of its element 1 that it shares with process 2. Process 2 queries it at
its owner slot `1 * 9 + 3 = 12`, which is not below `vnodes * owned_count = 9`; the views are
consistent, and the entry is translated right: slot 12 holds process 1's candidate of the node,
whose number is 0. -/
theorem waitQueryReply_eposBound_brick :
    ConsistentViews 3 brickViews brickNode ∧
    System.query brickViews 2 1 = [12] ∧
    ¬ (∀ epos ∈ System.query brickViews 2 1,
        epos < (brickViews 1).vnodes * (System.phase2 brickViews 1).ownedCount) ∧
    (System.phase2 brickViews 1).elementNodes 12 = 6 ∧
    ((System.phase2 brickViews 1).construct.getD 6 default).ownerContr.rank = 1 ∧
    translateEntry (System.phase2 brickViews 1) 12 = 0 ∧
    (System.phase2 brickViews 1).ownedCount = 1 := by
  refine ⟨⟨by decide, by decide, by decide, by decide, by decide⟩, by decide, by decide, by decide,
    by decide, by decide, by decide⟩

end P4estTnodes
