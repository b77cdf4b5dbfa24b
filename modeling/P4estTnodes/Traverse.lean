import P4estTnodes.Register

/-!
# The traversal callbacks: `iter_volume1`, `iter_face1`, `iter_corner1`

The topology iterator calls one callback per volume, face connection and corner connection.
Each callback is a straight sequence of statements once the event's data is known: node
registrations (`node_lregister`, `node_gregister`), the half-to-full promotion of a large
element, and writes to `configuration` and `face_code`. We model a callback as that sequence,
`TAction`s in source order with the loops over sides and halves unrolled, executed by
`runActions`. The only statement whose effect depends on the state at run time is the
promotion test `(configuration[le] & ~(1 << 4)) == 0`, which stays a run-time action
(`TAction.promote`).

The `lni` pointer that threads a candidate through the registrations of one callback is a
pointer to one of the callback's local variables (`lni`, `lnh[0]`, `lnh[1]` are variables
`0, 1, 2`), or `NULL` (`LniArg`); a fresh variable holds `-1` (`none`).

A ghost id outside the ghost layer (which the iterator never passes) registers nothing.

The iterator's side records are given with the local element number already computed
(`tree_quad_to_le`), and with the child ids of hanging quadrants already extracted
(`p4est_quadrant_child_id`). The forest table `p4est_face_corners` is a parameter
`faceCorners` (it is not part of the sources).

`configuration` is a `uint8_t`: the masks `~(1 << 4)` and `~((1 << 4) | (1 << 5))` act on it
as `239` and `207`.
-/

namespace P4estTnodes

/-! ## Event data -/

/-- The `lni` argument of a registration: `NULL`, or a pointer to local variable `k`.
Source: `node_register` (part_000 ll. 335–338)
Kind: D
Fidelity: exact -/
inductive LniArg
  /-- `NULL`: create a candidate and forget its index. -/
  | null
  /-- `&lni` (`k = 0`) or `&lnh[k - 1]`. -/
  | var (k : Nat)
  deriving DecidableEq, Repr

/-- The corners of each face of a quadrant, the table `p4est_face_corners` of the 2D forest,
which the callbacks read and which the model takes as the parameter `faceCorners`.
Source: `p4est_face_corners` (read at part_000 l. 645; defined outside the sources)
Kind: D -/
def p4estFaceCorners (f j : Nat) : Nat := ([[0, 2], [1, 3], [0, 1], [2, 3]].getD f []).getD j 0

/-- The volume callback's view of a leaf.
Source: `p4est_iter_volume_info_t` as read by `iter_volume1` (part_000 ll. 503–505)
Kind: D
Fidelity: exact on the fields read -/
structure VolumeInfo where
  /-- Refinement level. -/
  level : Nat
  /-- Child id (`p4est_quadrant_child_id`). -/
  childid : Nat
  deriving DecidableEq, Repr

/-- A full side of a face connection.
Source: `p4est_iter_face_side_t` / `p4est_iter_face_side_full_t`
Kind: D
Fidelity: exact on the fields read -/
structure FullSide where
  /-- Face of the quadrant. -/
  face : Nat
  /-- The quadrant is a ghost. -/
  isGhost : Bool
  /-- Local element number, or ghost id. -/
  quadid : Nat
  deriving DecidableEq, Repr

/-- A hanging side of a face connection: two small quadrants.
Source: `p4est_iter_face_side_t` / `p4est_iter_face_side_hanging_t`
Kind: D
Fidelity: exact on the fields read -/
structure HangingSide where
  /-- Face of the small quadrants. -/
  face : Nat
  /-- Each small quadrant is a ghost. -/
  isGhost : Bool × Bool
  /-- Local element number, or ghost id, of each small quadrant. -/
  quadid : Nat × Nat
  /-- Child id of each small quadrant. -/
  childid : Nat × Nat
  deriving DecidableEq, Repr

/-- The half `j ∈ {0, 1}` of a pair.
Source: none: infrastructure
Kind: D -/
def pick {α : Type} (p : α × α) (j : Nat) : α := if j = 0 then p.1 else p.2

/-- One side of a face connection.
Source: `p4est_iter_face_side_t`
Kind: D
Fidelity: exact -/
inductive FaceSide
  /-- A full side. -/
  | full (s : FullSide)
  /-- A hanging side. -/
  | hanging (s : HangingSide)
  deriving DecidableEq, Repr

/-- A face connection: one side on the boundary, two sides otherwise.
Source: `p4est_iter_face_info_t`
Kind: D
Fidelity: exact on the fields read -/
structure FaceInfo where
  /-- Orientation of the connection. -/
  orientation : Nat
  /-- The sides. -/
  sides : List FaceSide
  deriving DecidableEq, Repr

/-- One side of a corner connection.
Source: `p4est_iter_corner_side_t`
Kind: D
Fidelity: exact on the fields read -/
structure CornerSide where
  /-- Corner of the quadrant. -/
  corner : Nat
  /-- The quadrant is a ghost. -/
  isGhost : Bool
  /-- Local element number, or ghost id. -/
  quadid : Nat
  deriving DecidableEq, Repr

/-- A traversal event.
Source: the three callbacks of `p4est_iterate` (part_000 l. 1492)
Kind: D
Fidelity: exact -/
inductive Event
  /-- A volume callback. -/
  | volume (vi : VolumeInfo)
  /-- A face callback. -/
  | face (fi : FaceInfo)
  /-- A corner callback. -/
  | corner (sides : List CornerSide)
  deriving DecidableEq, Repr

/-! ## The statements of a callback -/

/-- One statement of a traversal callback.
Source: `iter_volume1`, `iter_face1`, `iter_corner1` (part_000 ll. 483–698)
Kind: D
Fidelity: exact -/
inductive TAction
  /-- `node_lregister (me, lni, le, nodene, bcon)`. -/
  | lregister (lni : LniArg) (le nodene : Nat) (bcon : Bcon)
  /-- `node_gregister (me, lni, ghostid, nodene, bcon)`. -/
  | gregister (lni : LniArg) (ghostid nodene : Nat) (bcon : Bcon)
  /-- `configuration[le] = v`. -/
  | setConfiguration (le v : Nat)
  /-- The promotion block of a large local element (ll. 606–618). -/
  | promote (le : Nat)
  /-- `configuration[le] &= ~((1 << 4) | (1 << 5)); configuration[le] |= (1 << face)`. -/
  | setFaceBit (le face : Nat)
  /-- `face_code[le] |= v`. -/
  | orFaceCode (le v : Nat)
  deriving DecidableEq, Repr

/-- Read the `lni` argument: `NULL` and a variable holding `-1` both create.
Source: `node_register` (part_000 ll. 335–338)
Kind: D -/
def LniArg.read (vars : Nat → Option Nat) : LniArg → Option Nat
  | .null => none
  | .var k => vars k

/-- Write back the candidate index through the `lni` pointer.
Source: `node_register` (part_000 l. 359)
Kind: D -/
def LniArg.write (vars : Nat → Option Nat) (i : Nat) : LniArg → Nat → Option Nat
  | .null => vars
  | .var k => Function.update vars k (some i)

/-- Promote the center of an element from face to corner codimension, in place.
Source: `node_lfacetocorner` (part_000 ll. 432–458)
Kind: D
Fidelity: exact -/
def nodeLfacetocorner (me : TnodesMeta) (le nodene : Nat) : TnodesMeta :=
  let lni := (me.elementNodes (le * me.vnodes + nodene)).toNat
  { me with construct := me.construct.modify (fun cn => { cn with bcon := .corner }) lni }

/-- Register a fresh local candidate and forget its index (`node_lregister (me, NULL, …)`).
Source: `node_lregister` (part_000 ll. 425–430)
Kind: D -/
def lregisterNew (me : TnodesMeta) (le nodene : Nat) (bcon : Bcon) : TnodesMeta :=
  (nodeRegister me none none le nodene bcon).1

/-- Execute one statement.
Source: `node_lregister`, `node_gregister` (part_000 ll. 425–481), `iter_face1` (ll. 606–620, 659)
Kind: D
Fidelity: exact -/
def runAction (st : TnodesMeta × (Nat → Option Nat)) : TAction → TnodesMeta × (Nat → Option Nat)
  | .lregister arg le nodene bcon =>
    let r := nodeRegister st.1 (arg.read st.2) none le nodene bcon
    (r.1, arg.write st.2 r.2)
  | .gregister arg g nodene bcon =>
    match st.1.ghost.bind (·[g]?) with
    | none => st
    | some gq =>
      let r := nodeRegister st.1 (arg.read st.2) (some gq.1) gq.2 nodene bcon
      (r.1, arg.write st.2 r.2)
  | .setConfiguration le v =>
    ({ st.1 with configuration := Function.update st.1.configuration le v }, st.2)
  | .promote le =>
    if st.1.configuration le &&& 239 = 0 then
      if !st.1.withFaces then (lregisterNew st.1 le nCenter .corner, st.2)
      else
        (nCface.foldl (fun me n => lregisterNew me le n .face)
          (nodeLfacetocorner st.1 le nCenter), st.2)
    else st
  | .setFaceBit le face =>
    let c := (st.1.configuration le &&& 207) ||| (1 <<< face)
    ({ st.1 with configuration := Function.update st.1.configuration le c }, st.2)
  | .orFaceCode le v =>
    let c := st.1.faceCode le ||| v
    ({ st.1 with faceCode := Function.update st.1.faceCode le c }, st.2)

/-- Execute a callback's statements, its local index variables starting at `-1`.
Source: none: infrastructure
Kind: D -/
def runActions (me : TnodesMeta) (acts : List TAction) : TnodesMeta :=
  (acts.foldl runAction (me, fun _ => none)).1

/-! ## The callbacks -/

/-- The statements of `iter_volume1` for element `le`: a full-style element (or a root)
registers its center as corner, and with faces its four center-to-corner midpoints; a half-style
element is marked when its child id is 1 or 2 and registers its center as face node.
Source: `iter_volume1` (part_000 ll. 512–529)
Kind: D
Fidelity: exact -/
def iterVolume1Actions (fullStyle withFaces : Bool) (le : Nat) (vi : VolumeInfo) :
    List TAction :=
  if fullStyle || vi.level == 0 then
    .setConfiguration le 32 :: .lregister .null le nCenter .corner ::
      if withFaces then nCface.map fun n => .lregister .null le n .face else []
  else
    (if vi.childid == 1 || vi.childid == 2 then [.setConfiguration le 16] else []) ++
      if withFaces then [.lregister .null le nCenter .face] else []

/-- The volume callback: the element number is the running count.
Source: `iter_volume1` (part_000 ll. 483–530)
Kind: D
Fidelity: exact (the `chilev` record is only read by a disabled debug print) -/
def iterVolume1 (me : TnodesMeta) (vi : VolumeInfo) : TnodesMeta :=
  runActions { me with lenum := me.lenum + 1 } (iterVolume1Actions me.fullStyle me.withFaces me.lenum vi)

/-- The statements of one side of a same-size face: register the face midpoint, shared
through variable `0`.
Source: `iter_face1` (part_000 ll. 579–589)
Kind: D
Fidelity: exact -/
def conformingSideActions (s : FullSide) : List TAction :=
  if !s.isGhost then [.lregister (.var 0) s.quadid (nMface.getD s.face 0) .face]
  else [.gregister (.var 0) s.quadid (nMface.getD s.face 0) .face]

/-- The statements of the large side of a hanging face. A local large element is promoted if
it is still in half style, gets the face bit, and registers the hanging midpoint as corner
(variable `0`), with faces also its split midpoint and the two half-face midpoints
(variables `1 + (j ^ swapi)`).
Source: `iter_face1` (part_000 ll. 598–637)
Kind: D
Fidelity: exact -/
def largeSideActions (withFaces : Bool) (swapi : Nat) (s : FullSide) : List TAction :=
  let nodene := nMface.getD s.face 0
  if !s.isGhost then
    [.promote s.quadid, .setFaceBit s.quadid s.face,
      .lregister (.var 0) s.quadid nodene .corner] ++
    if withFaces then
      .lregister .null s.quadid (nSplit.getD s.face 0) .face ::
        [0, 1].map fun j => .lregister (.var (1 + (j ^^^ swapi))) s.quadid
          ((nHface.getD s.face []).getD j 0) .face
    else []
  else
    .gregister (.var 0) s.quadid nodene .corner ::
      if withFaces then
        [0, 1].map fun j => .gregister (.var (1 + (j ^^^ swapi))) s.quadid
          ((nHface.getD s.face []).getD j 0) .face
      else []

/-- The statements of one small quadrant `j` of a hanging side: its corner at the hanging
midpoint (variable `0`), with faces its face midpoint (variable `1 + (j ^ swapi)`), and for a
local quadrant the face code.
Source: `iter_face1` (part_000 ll. 644–667)
Kind: D
Fidelity: exact -/
def smallQuadActions (faceCorners : Nat → Nat → Nat) (withFaces : Bool) (swapi : Nat)
    (s : HangingSide) (j : Nat) : List TAction :=
  let nodene := nCcorn.getD (faceCorners s.face (j ^^^ 1)) 0
  let q := pick s.quadid j
  if !pick s.isGhost j then
    .lregister (.var 0) q nodene .corner ::
      (if withFaces then [.lregister (.var (1 + (j ^^^ swapi))) q (nMface.getD s.face 0) .face]
       else []) ++
      [.orFaceCode q ((1 <<< (2 + s.face / 2)) ||| pick s.childid j)]
  else
    .gregister (.var 0) q nodene .corner ::
      if withFaces then [.gregister (.var (1 + (j ^^^ swapi))) q (nMface.getD s.face 0) .face]
      else []

/-- The statements of side `i` of a face with a hanging side.
Source: `iter_face1` (part_000 ll. 596–669)
Kind: D
Fidelity: exact -/
def hangingFaceSideActions (faceCorners : Nat → Nat → Nat) (withFaces : Bool)
    (orientation i : Nat) : FaceSide → List TAction
  | .full s => largeSideActions withFaces (if i = 0 || orientation = 0 then 0 else 1) s
  | .hanging s => [0, 1].flatMap
      (smallQuadActions faceCorners withFaces (if i = 0 || orientation = 0 then 0 else 1) s)

/-- The statements of `iter_face1`: a boundary face registers its midpoint with faces; a
same-size face registers one shared midpoint with faces; a face with a hanging side runs both
sides.
Source: `iter_face1` (part_000 ll. 532–670)
Kind: D
Fidelity: exact -/
def iterFace1Actions (faceCorners : Nat → Nat → Nat) (withFaces : Bool) (fi : FaceInfo) :
    List TAction :=
  match fi.sides with
  | [.full s] => if withFaces then [.lregister .null s.quadid (nMface.getD s.face 0) .face] else []
  | [.full s0, .full s1] =>
    if withFaces then conformingSideActions s0 ++ conformingSideActions s1 else []
  | [s0, s1] =>
    hangingFaceSideActions faceCorners withFaces fi.orientation 0 s0 ++
      hangingFaceSideActions faceCorners withFaces fi.orientation 1 s1
  | _ => []

/-- The statements of `iter_corner1`: every side contributes to one corner node.
Source: `iter_corner1` (part_000 ll. 672–698)
Kind: D
Fidelity: exact -/
def iterCorner1Actions (sides : List CornerSide) : List TAction :=
  sides.map fun cs =>
    if !cs.isGhost then .lregister (.var 0) cs.quadid (nCcorn.getD cs.corner 0) .corner
    else .gregister (.var 0) cs.quadid (nCcorn.getD cs.corner 0) .corner

/-- One traversal event.
Source: `iter_volume1`, `iter_face1`, `iter_corner1`
Kind: D
Fidelity: exact -/
def iterEvent (faceCorners : Nat → Nat → Nat) (me : TnodesMeta) : Event → TnodesMeta
  | .volume vi => iterVolume1 me vi
  | .face fi => runActions me (iterFace1Actions faceCorners me.withFaces fi)
  | .corner sides => runActions me (iterCorner1Actions sides)

/-- The traversal: `p4est_iterate` with the three callbacks, as a sequence of events.
Source: `p4est_tnodes_new` (part_000 l. 1492)
Kind: D
Fidelity: exact -/
def traverse (faceCorners : Nat → Nat → Nat) (me : TnodesMeta) (evs : List Event) : TnodesMeta :=
  evs.foldl (iterEvent faceCorners) me

end P4estTnodes
