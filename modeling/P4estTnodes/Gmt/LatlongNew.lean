import Mathlib.Algebra.Group.Int
import P4estTnodes.Gmt.LandPolygons

/-!
# The latitude-longitude model: `p4est_gmt_model_latlong_new`

`p4est_gmt_model_latlong_new` reads the land polygons of the parameters' file and region with
`read_land_polygons_bin`, keeps the polygon list as the model's data and makes its count of
line segments the model's `M`, the number of objects the refinement asks the model about. The
reader numbers each kept polygon's segments from its `global_line_segment_index`, one segment
fewer than its points, as its points close the polygon.

* `latlongNew_segments`: when every kept polygon has a point, `M` is the total count of
  segments, every segment number below `M` belongs to exactly one kept polygon, and every
  number a polygon holds is below `M`.

`M` is a `size_t` set from the `int` count, so a kept polygon without points, which counts
`-1` segments, can make the total negative and `M` wrap to near `2 ^ 64`; the hypothesis rules
that out. The reader returns no list where its `int` count would overflow, so the count the model
converts is the code's. The model's other fields (the unit square connectivity, the geometry and the function
pointers) do not depend on the input and are left out; `model_latlong_intersect` returns 0 for
every segment.
-/

namespace P4estTnodes.Gmt

/-- The fields of the latlong model that depend on the input.
Source: `p4est_gmt_model_t` (gmt_models.h ll. 39–59)
Kind: D -/
structure LatlongModel where
  /-- `model->M`. -/
  M : Nat
  /-- `model->model_data`, the polygon list. -/
  modelData : CoastlinePolygonList
  /-- `model->output_prefix`, `NULL` by default. -/
  outputPrefix : Option String
  deriving DecidableEq, Repr

/-- `p4est_gmt_model_latlong_new` for the parameters' file, region (`overlaps`) and output prefix;
`none` where the reader's result is not determined by the file. The `int` count of segments is
converted to the `size_t` `M` modulo `2 ^ 64`.
Source: `p4est_gmt_model_latlong_new` (gmt_models.c ll. 193–218)
Kind: D
Fidelity: exact on `M`, the polygon list and the prefix -/
def p4estGmtModelLatlongNew (overlaps : BitVec 32 → BitVec 32 → BitVec 32 → BitVec 32 → Bool)
    (loadFile : List UInt8) (outputPrefix : Option String) : Option LatlongModel :=
  (readLandPolygonsBin overlaps loadFile).map fun pl =>
    ⟨(pl.numLineSegments % 2 ^ 64).toNat, pl, outputPrefix⟩

/-- Polygon `i` of `hs` holds line segment `m`: `m` lies in the range of its segment numbers,
from its `global_line_segment_index` on, one fewer than its points.
Source: `read_land_polygons_bin` (gmt_models.c ll. 295–300)
Kind: D -/
def HoldsSegment (hs : List GshhgHeader) (i m : Nat) : Prop :=
  ∃ hd, hs[i]? = some hd ∧ hd.globalLineSegmentIndex ≤ m ∧
    (m : Int) < hd.globalLineSegmentIndex + (hd.n.toInt - 1)

/-! ## Segment numbers in a numbered list -/

section segments

variable {hs : List GshhgHeader}

lemma holdsSegment_numberSegments_zero (s : Int) (hd : GshhgHeader) (hs : List GshhgHeader)
    (m : Nat) :
    HoldsSegment (numberSegments s (hd :: hs)) 0 m ↔ s ≤ m ∧ (m : Int) < s + (hd.n.toInt - 1) := by
  simp [HoldsSegment, numberSegments]

lemma holdsSegment_numberSegments_succ (s : Int) (hd : GshhgHeader) (hs : List GshhgHeader)
    (i m : Nat) :
    HoldsSegment (numberSegments s (hd :: hs)) (i + 1) m ↔
      HoldsSegment (numberSegments (s + (hd.n.toInt - 1)) hs) i m := by
  simp only [HoldsSegment, numberSegments, List.getElem?_cons_succ]

lemma toInt_lt_two_pow_32 (x : BitVec 32) : x.toInt < 2 ^ 32 := by
  have := x.isLt
  rw [BitVec.toInt_eq_toNat_cond]
  split_ifs <;> omega

lemma segmentCount_le : ∀ hs : List GshhgHeader, segmentCount hs ≤ hs.length * 2 ^ 32
  | [] => le_refl _
  | hd :: hs => by
    have := toInt_lt_two_pow_32 hd.n
    have := segmentCount_le hs
    rw [segmentCount, List.length_cons]
    push_cast
    omega

variable (hpos : ∀ hd ∈ hs, 0 < hd.n.toInt)
include hpos

lemma segmentCount_nonneg : 0 ≤ segmentCount hs := by
  induction hs with
  | nil => exact le_refl _
  | cons hd hs ih =>
    have := hpos hd (List.mem_cons_self _ _)
    have := ih fun hd' h => hpos hd' (List.mem_cons_of_mem _ h)
    rw [segmentCount]
    omega

/-- The segments a polygon of a list numbered from `s` holds lie in `[s, s + segmentCount hs)`.
Source: `read_land_polygons_bin` (gmt_models.c ll. 295–300)
Kind: L -/
lemma HoldsSegment.bounds {s : Int} {i m : Nat} (h : HoldsSegment (numberSegments s hs) i m) :
    s ≤ m ∧ (m : Int) < s + segmentCount hs := by
  induction hs generalizing s i with
  | nil => obtain ⟨_, h, -⟩ := h; cases h
  | cons hd hs ih =>
    have hd1 := hpos hd (List.mem_cons_self _ _)
    have hrest : ∀ hd' ∈ hs, 0 < hd'.n.toInt := fun hd' h => hpos hd' (List.mem_cons_of_mem _ h)
    have hc := segmentCount_nonneg hrest
    rw [segmentCount]
    cases i with
    | zero =>
      have := (holdsSegment_numberSegments_zero s hd hs m).mp h
      omega
    | succ i =>
      have := ih hrest ((holdsSegment_numberSegments_succ s hd hs i m).mp h)
      omega

/-- Every number in `[s, s + segmentCount hs)` is a segment of exactly one polygon of the list
numbered from `s`.
Source: `read_land_polygons_bin` (gmt_models.c ll. 295–300)
Kind: L -/
lemma existsUnique_holdsSegment {s : Int} {m : Nat} (h1 : s ≤ m)
    (h2 : (m : Int) < s + segmentCount hs) : ∃! i, HoldsSegment (numberSegments s hs) i m := by
  induction hs generalizing s with
  | nil => rw [segmentCount] at h2; omega
  | cons hd hs ih =>
    have hrest : ∀ hd' ∈ hs, 0 < hd'.n.toInt := fun hd' h => hpos hd' (List.mem_cons_of_mem _ h)
    rw [segmentCount] at h2
    by_cases hm : (m : Int) < s + (hd.n.toInt - 1)
    · refine ⟨0, (holdsSegment_numberSegments_zero s hd hs m).mpr ⟨h1, hm⟩, fun j hj => ?_⟩
      cases j with
      | zero => rfl
      | succ j =>
        have := (HoldsSegment.bounds hrest ((holdsSegment_numberSegments_succ s hd hs j m).mp hj)).1
        omega
    · obtain ⟨i, hi, huniq⟩ := ih hrest (s := s + (hd.n.toInt - 1)) (by omega) (by omega)
      refine ⟨i + 1, (holdsSegment_numberSegments_succ s hd hs i m).mpr hi, fun j hj => ?_⟩
      cases j with
      | zero => exact absurd ((holdsSegment_numberSegments_zero s hd hs m).mp hj).2 hm
      | succ j => rw [huniq j ((holdsSegment_numberSegments_succ s hd hs j m).mp hj)]

end segments

/-! ## The model's segments -/

/-- **The model's `M` counts the segments of its polygons, and numbers them one to one.** When
every kept polygon has a point, `M` is the total of their segment counts, every number below `M`
is a segment of exactly one polygon of the model's list, and every segment a polygon holds is
below `M`.
Source: `p4est_gmt_model_latlong_new` (gmt_models.c ll. 193–218), `read_land_polygons_bin`
(ll. 243–328)
Kind: P -/
theorem latlongNew_segments (overlaps : BitVec 32 → BitVec 32 → BitVec 32 → BitVec 32 → Bool)
    (loadFile : List UInt8) (outputPrefix : Option String) (mdl : LatlongModel)
    (h : p4estGmtModelLatlongNew overlaps loadFile outputPrefix = some mdl)
    (hpos : ∀ hd ∈ mdl.modelData.polygonHeaders, 0 < hd.n.toInt) :
    (mdl.M : Int) = segmentCount mdl.modelData.polygonHeaders ∧
    (∀ m < mdl.M, ∃! i, HoldsSegment mdl.modelData.polygonHeaders i m) ∧
    ∀ i m, HoldsSegment mdl.modelData.polygonHeaders i m → m < mdl.M := by
  obtain ⟨pl, hpl, rfl⟩ := Option.map_eq_some'.mp h
  obtain ⟨st, hst, rfl⟩ := Option.map_eq_some'.mp hpl
  dsimp only at hpos ⊢
  have hw := ((readInv_start loadFile).readLoop hst).wellFormed
  have hnn := segmentCount_nonneg hpos
  have hle := segmentCount_le st.result.polygonHeaders
  have hcap : st.result.polygonHeaders.length ≤ 500000 := hw.numPolygons ▸ hw.capacity
  have hM : (((st.result.numLineSegments % 2 ^ 64).toNat : Nat) : Int) =
      segmentCount st.result.polygonHeaders := by
    rw [Int.toNat_of_nonneg (Int.emod_nonneg _ (by decide)), hw.numLineSegments,
      Int.emod_eq_of_lt hnn (by omega)]
  refine ⟨hM, fun m hm => ?_, fun i m hi => ?_⟩
  · have := existsUnique_holdsSegment hpos (s := 0) (m := m) (Int.ofNat_nonneg m) (by omega)
    rwa [hw.numbered] at this
  · have := (HoldsSegment.bounds hpos (s := 0) (hw.numbered.symm ▸ hi)).2
    omega

/-- The file of the triangle and the lake gives a model of the triangle's three segments. -/
theorem latlongNew_segments_landAndLake :
    p4estGmtModelLatlongNew (fun _ _ _ _ => true) (encodeFile [landTriangle, lakeInTriangle]) none =
      some ⟨3, ⟨[{ landTriangle.header with globalLineSegmentIndex := 0 }], 1, 3⟩, none⟩ ∧
    (∀ hd ∈ [{ landTriangle.header with globalLineSegmentIndex := 0 }], 0 < hd.n.toInt) ∧
    (∀ m < 3, ∃! i, HoldsSegment [{ landTriangle.header with globalLineSegmentIndex := 0 }] i m) :=
  have h : p4estGmtModelLatlongNew (fun _ _ _ _ => true) (encodeFile [landTriangle, lakeInTriangle])
      none = some ⟨3, ⟨[{ landTriangle.header with globalLineSegmentIndex := 0 }], 1, 3⟩, none⟩ := by
    rw [p4estGmtModelLatlongNew, readLandPolygonsBin, readLoop_encodeFile
      (by decide : ([] : List UInt8).length < 44) _ _ (List.append_nil _).symm rfl (Nat.zero_le _)
      rfl (by decide) (by decide) (by decide)]
    decide
  have hpos : ∀ hd ∈ [{ landTriangle.header with globalLineSegmentIndex := 0 }], 0 < hd.n.toInt := by
    decide
  ⟨h, hpos, (latlongNew_segments _ _ _ _ h hpos).2.1⟩

end P4estTnodes.Gmt
