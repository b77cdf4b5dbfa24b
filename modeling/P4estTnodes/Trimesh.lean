import P4estTnodes.Phases

/-!
# The triangle mesh under construction: `p4est_trimesh_new`

`p4est_trimesh.c` (part_001) is an early, unfinished form of the triangle mesh. Its traversal
creates one owned node per element, at the quadrant's midpoint, and numbers these nodes in the
order of the elements; the face callback works out the nodes of a face connection into locals that
it does not store yet, and the corner callback is empty. After the traversal every process
gathers the owned counts and computes its global offset, and reports the global count; messages,
node flags and the rest of `lnodes` are not written yet.

The traversal runs over the events of `p4est_iterate` (`Event`, as for `p4est_tnodes_new`); the
processes `p < s` exchange only their owned counts, so the run of all of them (`trimeshRun`) feeds
each the counts of the others' traversals. `p4est_iterate` calls the volume callback once per
local quadrant, as the source asserts (`me->lenum == le`): the results below assume it. The
code computes `le * vn` and `vnodes * le + 4` in `int` and does not check them; the results also
assume the bound that `p4est_tnodes_new` asserts, `n * vnodes ≤ P4EST_LOCIDX_MAX`, under which
these products are those of the model.

* `TravInv.run`: during the traversal, the midpoint of each element reached holds its number,
  and every other position of `element_nodes` still holds the 0 it was allocated with.
* `trimeshRun_numbering`: on every process the global offset is the sum of the owned counts
  below it and the reported count is the total; the midpoints' global numbers (global offset plus
  local number) number the elements of all processes one to one onto `[0, gc)`.
-/

namespace P4estTnodes.Trimesh

/-- `node_seq`: the positions of the nine nodes of a quadrant (row-major on its 3 × 3 grid), the
midpoint first, then the face midpoints by face, then the corners by corner.
Source: `node_seq` (part_001 l. 41)
Kind: D -/
def nodeSeq : List Nat := [4, 3, 5, 1, 7, 0, 2, 6, 8]

/-- `P4EST_LOCIDX_MAX`, the largest `p4est_locidx_t` (an `int32_t`).
Source: `P4EST_LOCIDX_MAX`, against which `p4est_tnodes_new` asserts (part_000 l. 1479)
Kind: D -/
def p4estLocidxMax : Nat := 2 ^ 31 - 1

/-- The traversal's state: the fields of `trimesh_meta_t` it writes, and the `lnodes` array
`element_nodes` it fills.
Source: `trimesh_meta_t` (part_001 ll. 28–39), `p4est_lnodes_t`
Kind: D -/
structure TrimeshMeta where
  /-- `with_faces`. -/
  withFaces : Bool
  /-- `lenum`: the next local element. -/
  lenum : Nat
  /-- `num_owned`. -/
  numOwned : Nat
  /-- `num_shared`. -/
  numShared : Nat
  /-- `ln->vnodes`. -/
  vnodes : Nat
  /-- `ln->element_nodes`. -/
  elementNodes : List Nat
  deriving DecidableEq, Repr

/-- The state before the traversal of `n` local elements: zeroed, with `vnodes` and the zeroed
`element_nodes` of `n` elements.
Source: `p4est_trimesh_new` (part_001 ll. 152–170)
Kind: D
Fidelity: exact -/
def TrimeshMeta.init (withFaces : Bool) (n : Nat) : TrimeshMeta where
  withFaces := withFaces
  lenum := 0
  numOwned := 0
  numShared := 0
  vnodes := 9 + if withFaces then 16 else 0
  elementNodes := List.replicate (n * (9 + if withFaces then 16 else 0)) 0

/-- `iter_volume1`: number the next element's midpoint with the next owned node.
Source: `iter_volume1` (part_001 ll. 44–67)
Kind: D
Fidelity: exact; the assertions are left out -/
def iterVolume1 (me : TrimeshMeta) : TrimeshMeta :=
  let le := me.lenum
  { me with
    lenum := le + 1
    numOwned := me.numOwned + 1
    elementNodes := me.elementNodes.set (me.vnodes * le + nodeSeq.getD 0 0) me.numOwned }

/-- `iter_face1`: it works out the codimension, ownership and positions of the nodes of the face
connection into its locals, and stores none of them: the state is unchanged.
Source: `iter_face1` (part_001 ll. 69–131)
Kind: D
Fidelity: exact on the state -/
def iterFace1 (me : TrimeshMeta) (_fi : FaceInfo) : TrimeshMeta := me

/-- `iter_corner1`: empty.
Source: `iter_corner1` (part_001 ll. 133–136)
Kind: D
Fidelity: exact -/
def iterCorner1 (me : TrimeshMeta) (_sides : List CornerSide) : TrimeshMeta := me

/-- One traversal event.
Source: the three callbacks of `p4est_iterate` (part_001 l. 171)
Kind: D
Fidelity: exact -/
def iterEvent (me : TrimeshMeta) : Event → TrimeshMeta
  | .volume _ => iterVolume1 me
  | .face fi => iterFace1 me fi
  | .corner sides => iterCorner1 me sides

/-- The traversal of `n` local elements reported by the events `evs`.
Source: `p4est_trimesh_new` (part_001 ll. 152–172)
Kind: D
Fidelity: exact -/
def trimeshTraverse (withFaces : Bool) (n : Nat) (evs : List Event) : TrimeshMeta :=
  evs.foldl iterEvent (TrimeshMeta.init withFaces n)

/-- The number of volume events, one per local quadrant for `p4est_iterate`.
Source: `p4est_iterate` (part_001 ll. 171–172)
Kind: D -/
def volumeCount (evs : List Event) : Nat :=
  evs.countP fun | .volume _ => true | _ => false

/-- `ln->global_offset`: the owned counts of the processes below `p`.
Source: `p4est_trimesh_new` (part_001 ll. 184–187)
Kind: D
Fidelity: exact -/
def globalOffset (gathered : Nat → Nat) (p : Nat) : Nat :=
  (List.range p).foldl (fun o q => o + gathered q) 0

/-- `gc`, the global owned count process `p` of `s` reports: its global offset plus the owned
counts from `p` on.
Source: `p4est_trimesh_new` (part_001 ll. 188–192)
Kind: D
Fidelity: exact -/
def globalCount (gathered : Nat → Nat) (p s : Nat) : Nat :=
  (List.range' p (s - p)).foldl (fun gc q => gc + gathered q) (globalOffset gathered p)

/-- `p4est_trimesh_t`: the fields of `tm->lnodes` that `p4est_trimesh_new` sets, and the count
it reports.
Source: `p4est_lnodes_t` as `p4est_trimesh_new` fills it (part_001 ll. 161–192)
Kind: D -/
structure P4estTrimesh where
  /-- `vnodes`. -/
  vnodes : Nat
  /-- `num_local_elements`. -/
  numLocalElements : Nat
  /-- `face_code`, allocated zeroed and not written yet. -/
  faceCode : List Nat
  /-- `element_nodes`. -/
  elementNodes : List Nat
  /-- `global_owned_count`, as gathered. -/
  globalOwnedCount : Nat → Nat
  /-- `global_offset`. -/
  globalOffset : Nat
  /-- `gc`, reported by `P4EST_GLOBAL_PRODUCTIONF`. -/
  globalCount : Nat

/-- `p4est_trimesh_new` on process `p` of `s` with `n` local quadrants reported as `evs`, and the
owned counts `gathered` by `sc_MPI_Allgather`.
Source: `p4est_trimesh_new` (part_001 ll. 138–199)
Kind: D
Fidelity: exact on the fields it sets -/
def p4estTrimeshNew (withFaces : Bool) (s p n : Nat) (evs : List Event) (gathered : Nat → Nat) :
    P4estTrimesh :=
  let me := trimeshTraverse withFaces n evs
  { vnodes := me.vnodes
    numLocalElements := n
    faceCode := List.replicate n 0
    elementNodes := me.elementNodes
    globalOwnedCount := gathered
    globalOffset := globalOffset gathered p
    globalCount := globalCount gathered p s }

/-- The run on the processes `p < s`, process `q` with `n q` local quadrants reported as `evs q`:
each gathers the owned counts of all traversals.
Source: `p4est_trimesh_new` (part_001 ll. 171–192) on every process
Kind: D -/
def trimeshRun (withFaces : Bool) (s : Nat) (n : Nat → Nat) (evs : Nat → List Event) (p : Nat) :
    P4estTrimesh :=
  p4estTrimeshNew withFaces s p (n p) (evs p) fun q => (trimeshTraverse withFaces (n q) (evs q)).numOwned

/-- The global number of the midpoint node of element `le`: the global offset plus its local
number.
Source: the `lnodes` numbering, owned nodes first (part_001 ll. 66, 184–187)
Kind: D -/
def P4estTrimesh.midpointNumber (tm : P4estTrimesh) (le : Nat) : Nat :=
  tm.globalOffset + tm.elementNodes.getD (tm.vnodes * le + nodeSeq.getD 0 0) 0

/-! ## The traversal -/

/-- Position `j` of element `le` and position `j'` of element `le'` are one when both are below
`vn`. -/
lemma row_eq_iff {vn le le' j j' : Nat} (hj : j < vn) (hj' : j' < vn) :
    vn * le + j = vn * le' + j' ↔ le = le' ∧ j = j' := by
  constructor
  · intro h
    have h1 := congrArg (· / vn) h
    have h2 := congrArg (· % vn) h
    simp only [Nat.mul_add_div (Nat.zero_lt_of_lt hj), Nat.div_eq_of_lt hj, Nat.div_eq_of_lt hj',
      Nat.mul_add_mod, Nat.mod_eq_of_lt hj, Nat.mod_eq_of_lt hj', Nat.add_zero] at h1 h2
    exact ⟨h1, h2⟩
  · rintro ⟨rfl, rfl⟩
    rfl

/-- `element_nodes` of `n` elements of `vn` positions once the midpoints of the first `k` are
numbered: the midpoint of element `le < k` holds `le`, every other position 0.
Source: `iter_volume1` (part_001 l. 66) over the elements so far
Kind: D -/
def Midpoints (vn n k : Nat) (l : List Nat) : Prop :=
  l.length = n * vn ∧
    ∀ le < n, ∀ j < vn, l.getD (vn * le + j) 0 = if j = nodeSeq.getD 0 0 ∧ le < k then le else 0

/-- Numbering the midpoint of element `k` takes the form for `k` to the form for `k + 1`. -/
lemma Midpoints.set {vn n k : Nat} {l : List Nat} (h : Midpoints vn n k l) (hvn : 4 < vn)
    (hk : k < n) : Midpoints vn n (k + 1) (l.set (vn * k + nodeSeq.getD 0 0) k) := by
  have hin : vn * k + 4 < l.length := by
    rw [h.1]
    have := Nat.mul_le_mul_left vn (Nat.succ_le_of_lt hk)
    rw [Nat.mul_succ] at this
    rw [Nat.mul_comm n]
    omega
  refine ⟨by rw [List.length_set, h.1], fun le hle j hj => ?_⟩
  rw [getD_set, h.2 le hle j hj]
  by_cases hrow : le = k ∧ j = 4
  · obtain ⟨rfl, rfl⟩ := hrow
    simp only [show nodeSeq.getD 0 0 = 4 from rfl, true_and, Nat.lt_succ_self, and_self, hin,
      if_true]
  · have hne : ¬ (vn * k + nodeSeq.getD 0 0 = vn * le + j) := fun he =>
      have hr := (row_eq_iff hvn hj).mp he
      hrow ⟨hr.1.symm, hr.2.symm⟩
    rw [if_neg fun h' => hne h'.1]
    simp only [show nodeSeq.getD 0 0 = 4 from rfl] at hrow ⊢
    by_cases hj4 : j = 4
    · have : le ≠ k := fun hlk => hrow ⟨hlk, hj4⟩
      simp only [hj4, true_and]
      split_ifs <;> omega
    · simp only [hj4, false_and, if_false]

/-- The traversal's invariant after `k` volume events of `n`.
Source: `iter_volume1` (part_001 ll. 44–67)
Kind: D -/
structure TravInv (withFaces : Bool) (n k : Nat) (me : TrimeshMeta) : Prop where
  vnodes : me.vnodes = 9 + if withFaces then 16 else 0
  lenum : me.lenum = k
  numOwned : me.numOwned = k
  elementNodes : Midpoints me.vnodes n k me.elementNodes

lemma travInv_init (withFaces : Bool) (n : Nat) :
    TravInv withFaces n 0 (TrimeshMeta.init withFaces n) := by
  refine ⟨rfl, rfl, rfl, by rw [TrimeshMeta.init, List.length_replicate, Nat.mul_comm], fun le _ j _ => ?_⟩
  simp only [TrimeshMeta.init, List.getD_eq_getElem?_getD, List.getElem?_replicate,
    Nat.not_lt_zero, and_false, if_false]
  split_ifs <;> rfl

lemma TravInv.step {withFaces : Bool} {n k : Nat} {me : TrimeshMeta}
    (h : TravInv withFaces n k me) (e : Event) (hk : k + volumeCount [e] ≤ n) :
    TravInv withFaces n (k + volumeCount [e]) (iterEvent me e) := by
  cases e with
  | volume vi =>
    have hvn : 4 < me.vnodes := by rw [h.vnodes]; split <;> omega
    refine ⟨h.vnodes, by simp [iterEvent, iterVolume1, h.lenum, volumeCount],
      by simp [iterEvent, iterVolume1, h.numOwned, volumeCount], ?_⟩
    simp only [iterEvent, iterVolume1, h.lenum, h.numOwned]
    exact h.elementNodes.set hvn (by simp [volumeCount] at hk; omega)
  | face fi => exact h
  | corner sides => exact h

/-- **The traversal numbers the midpoints in element order**: over events with `v` volume
events among `n` elements, from the invariant after `k`, it ends in the invariant after
`k + v`. -/
lemma TravInv.run {withFaces : Bool} {n : Nat} :
    ∀ (evs : List Event) (k : Nat) (me : TrimeshMeta), TravInv withFaces n k me →
      k + volumeCount evs ≤ n → TravInv withFaces n (k + volumeCount evs) (evs.foldl iterEvent me)
  | [], k, me, h, _ => h
  | e :: evs, k, me, h, hk => by
    have hc : volumeCount (e :: evs) = volumeCount [e] + volumeCount evs := by
      simp only [volumeCount, List.countP_cons, List.countP_nil]
      omega
    rw [hc, ← Nat.add_assoc] at hk ⊢
    exact TravInv.run evs _ _ (h.step e (by omega)) hk

lemma trimeshTraverse_inv {withFaces : Bool} {n : Nat} {evs : List Event}
    (hv : volumeCount evs = n) : TravInv withFaces n n (trimeshTraverse withFaces n evs) := by
  have h := TravInv.run evs 0 _ (travInv_init withFaces n) (by omega)
  rwa [Nat.zero_add, hv] at h

/-! ## The global offsets -/

lemma foldl_add_range' (g : Nat → Nat) : ∀ (m p a : Nat),
    (List.range' p m).foldl (fun o q => o + g q) a + prefixSum g p = a + prefixSum g (p + m)
  | 0, _, _ => rfl
  | m + 1, p, a => by
    have h := foldl_add_range' g m (p + 1) (a + g p)
    rw [prefixSum, show p + 1 + m = p + (m + 1) by omega] at h
    rw [List.range'_succ, List.foldl_cons]
    omega

/-- The first loop sums the owned counts below `p`. -/
lemma globalOffset_eq (g : Nat → Nat) (p : Nat) : globalOffset g p = prefixSum g p := by
  have h := foldl_add_range' g p 0 0
  rw [Nat.zero_add, Nat.zero_add, show prefixSum g 0 = 0 from rfl, Nat.add_zero,
    ← List.range_eq_range'] at h
  exact h

/-- The second loop goes on to the total. -/
lemma globalCount_eq (g : Nat → Nat) {p s : Nat} (h : p ≤ s) : globalCount g p s = prefixSum g s := by
  have h' := foldl_add_range' g (s - p) p (prefixSum g p)
  rw [show p + (s - p) = s by omega] at h'
  rw [globalCount, globalOffset_eq]
  omega

lemma prefixSum_congr {g g' : Nat → Nat} : ∀ {p : Nat}, (∀ q < p, g q = g' q) →
    prefixSum g p = prefixSum g' p
  | 0, _ => rfl
  | p + 1, h => by
    rw [prefixSum, prefixSum, prefixSum_congr fun q hq => h q (Nat.lt_succ_of_lt hq),
      h p (Nat.lt_succ_self p)]

/-! ## All processes -/

section run

variable {withFaces : Bool} {s : Nat} {n : Nat → Nat} {evs : Nat → List Event}
  (hv : ∀ p < s, volumeCount (evs p) = n p)
include hv

lemma trimeshRun_gathered {q : Nat} (hq : q < s) :
    (trimeshTraverse withFaces (n q) (evs q)).numOwned = n q :=
  (trimeshTraverse_inv (hv q hq)).numOwned

lemma trimeshRun_globalOffset {p : Nat} (hp : p ≤ s) :
    (trimeshRun withFaces s n evs p).globalOffset = prefixSum n p := by
  rw [trimeshRun, p4estTrimeshNew, globalOffset_eq]
  exact prefixSum_congr fun q hq => trimeshRun_gathered hv (by omega)

lemma trimeshRun_globalCount {p : Nat} (hp : p < s) :
    (trimeshRun withFaces s n evs p).globalCount = prefixSum n s := by
  rw [trimeshRun, p4estTrimeshNew, globalCount_eq _ hp.le]
  exact prefixSum_congr fun q hq => trimeshRun_gathered hv hq

lemma trimeshRun_elementNodes {p : Nat} (hp : p < s) {le j : Nat} (hle : le < n p)
    (hj : j < (trimeshRun withFaces s n evs p).vnodes) :
    (trimeshRun withFaces s n evs p).elementNodes.getD
      ((trimeshRun withFaces s n evs p).vnodes * le + j) 0 =
      if j = nodeSeq.getD 0 0 then le else 0 := by
  have h := (@trimeshTraverse_inv withFaces _ _ (hv p hp)).elementNodes.2 le hle j hj
  simpa only [hle, and_true] using h

lemma trimeshRun_vnodes {p : Nat} (hp : p < s) :
    (trimeshRun withFaces s n evs p).vnodes = 9 + if withFaces then 16 else 0 :=
  (trimeshTraverse_inv (hv p hp)).vnodes

/-- The midpoint positions that `iter_volume1` writes stay below `n * vnodes`. -/
lemma trimeshRun_midpoint_lt {p : Nat} (hp : p < s) {le : Nat} (hle : le < n p) :
    (trimeshRun withFaces s n evs p).vnodes * le + nodeSeq.getD 0 0 <
      n p * (9 + if withFaces then 16 else 0) := by
  have h4 : 4 < 9 + if withFaces then 16 else 0 := by split <;> omega
  have hrow : (9 + if withFaces then 16 else 0) * (le + 1) ≤
      (9 + if withFaces then 16 else 0) * n p := Nat.mul_le_mul_left _ hle
  rw [trimeshRun_vnodes hv hp, Nat.mul_comm (n p), show nodeSeq.getD 0 0 = 4 from rfl]
  rw [Nat.mul_succ] at hrow
  omega

lemma trimeshRun_midpointNumber {p : Nat} (hp : p < s) {le : Nat} (hle : le < n p) :
    (trimeshRun withFaces s n evs p).midpointNumber le = prefixSum n p + le := by
  have hvn : nodeSeq.getD 0 0 < (trimeshRun withFaces s n evs p).vnodes := by
    simp only [trimeshRun, p4estTrimeshNew, (trimeshTraverse_inv (hv p hp)).vnodes]
    split <;> decide
  rw [P4estTrimesh.midpointNumber, trimeshRun_globalOffset hv hp.le,
    trimeshRun_elementNodes hv hp hle hvn, if_pos rfl]

end run

/-- **The numbering of the midpoints over all processes**: on process `p < s`, `global_offset`
is the sum of the owned counts below `p` and the reported `gc` is the total; the midpoint of
element `le` holds `le`, every other position of `element_nodes` 0; the global numbers of the
midpoints, `global_offset` plus local number, number the elements of all processes one to one
onto `[0, gc)`; and the midpoint positions fit in `int`.
Source: `p4est_trimesh_new` (part_001 ll. 138–199), `iter_volume1` (ll. 44–67)
Kind: D -/
structure TrimeshNumbering (withFaces : Bool) (s : Nat) (n : Nat → Nat) (evs : Nat → List Event) :
    Prop where
  globalOffset : ∀ p < s, (trimeshRun withFaces s n evs p).globalOffset = prefixSum n p
  globalCount : ∀ p < s, (trimeshRun withFaces s n evs p).globalCount = prefixSum n s
  elementNodes : ∀ p < s, ∀ le < n p, ∀ j < (trimeshRun withFaces s n evs p).vnodes,
    (trimeshRun withFaces s n evs p).elementNodes.getD
      ((trimeshRun withFaces s n evs p).vnodes * le + j) 0 = if j = nodeSeq.getD 0 0 then le else 0
  inj : ∀ p < s, ∀ p' < s, ∀ le < n p, ∀ le' < n p',
    (trimeshRun withFaces s n evs p).midpointNumber le =
      (trimeshRun withFaces s n evs p').midpointNumber le' → p = p' ∧ le = le'
  range : ∀ p < s, ∀ le < n p, (trimeshRun withFaces s n evs p).midpointNumber le < prefixSum n s
  surj : ∀ g < prefixSum n s, ∃ p < s, ∃ le < n p, (trimeshRun withFaces s n evs p).midpointNumber le = g
  /-- The positions `vnodes * le + node_seq[0]` that the code computes in `int` fit in it. -/
  midpointFits : ∀ p < s, ∀ le < n p,
    (trimeshRun withFaces s n evs p).vnodes * le + nodeSeq.getD 0 0 < p4estLocidxMax

/-- **`p4est_trimesh_new` numbers the element midpoints of all processes one to one**, for every
forest whose iterator reports each local quadrant once and whose element arrays fit
`p4est_locidx_t`, the bound `p4est_tnodes_new` asserts.
Source: `p4est_trimesh_new` (part_001 ll. 138–199), `iter_volume1` (ll. 44–67)
Kind: P -/
theorem trimeshRun_numbering (withFaces : Bool) (s : Nat) (n : Nat → Nat) (evs : Nat → List Event)
    (hv : ∀ p < s, volumeCount (evs p) = n p)
    (hbound : ∀ p < s, n p * (9 + if withFaces then 16 else 0) ≤ p4estLocidxMax) :
    TrimeshNumbering withFaces s n evs := by
  refine ⟨fun p hp => trimeshRun_globalOffset hv hp.le, fun p hp => trimeshRun_globalCount hv hp,
    fun p hp le hle j hj => trimeshRun_elementNodes hv hp hle hj,
    fun p hp p' hp' le hle le' hle' h => ?_, fun p hp le hle => ?_, fun g hg => ?_,
    fun p hp le hle => (trimeshRun_midpoint_lt hv hp hle).trans_le (hbound p hp)⟩
  · rw [trimeshRun_midpointNumber hv hp hle, trimeshRun_midpointNumber hv hp' hle'] at h
    exact prefixSum_add_inj n hle hle' h
  · rw [trimeshRun_midpointNumber hv hp hle]
    exact prefixSum_add_lt n hp hle
  · obtain ⟨p, hp, h1, h2⟩ := exists_prefixSum_block n hg
    exact ⟨p, hp, g - prefixSum n p, by omega, by rw [trimeshRun_midpointNumber hv hp (by omega)]; omega⟩

/-- Three trees in a row, one quadrant each; process 0 owns the first two, process 1 the third.
Among the events of process 0 are the face and the corner between its two elements, and among
those of process 1 the right boundary face: the midpoints are numbered 0, 1 and 2. -/
theorem trimeshRun_numbering_threeElements :
    (∀ p < 2, volumeCount ((fun p => if p = 0 then [Event.volume ⟨0, 0⟩,
      .face ⟨0, [.full ⟨1, false, 0⟩, .full ⟨0, false, 1⟩]⟩, .volume ⟨0, 0⟩,
      .corner [⟨1, false, 0⟩, ⟨0, false, 1⟩]]
        else [Event.volume ⟨0, 0⟩, .face ⟨0, [.full ⟨1, false, 0⟩]⟩]) p) =
        (fun p => if p = 0 then 2 else 1) p) ∧
    (∀ p < 2, (fun p => if p = 0 then 2 else 1) p * (9 + if false then 16 else 0) ≤
      p4estLocidxMax) ∧
    TrimeshNumbering false 2 (fun p => if p = 0 then 2 else 1)
      (fun p => if p = 0 then [.volume ⟨0, 0⟩,
        .face ⟨0, [.full ⟨1, false, 0⟩, .full ⟨0, false, 1⟩]⟩, .volume ⟨0, 0⟩,
        .corner [⟨1, false, 0⟩, ⟨0, false, 1⟩]]
        else [.volume ⟨0, 0⟩, .face ⟨0, [.full ⟨1, false, 0⟩]⟩]) :=
  ⟨by decide, by decide, trimeshRun_numbering false 2 _ _ (by decide) (by decide)⟩

end P4estTnodes.Trimesh
