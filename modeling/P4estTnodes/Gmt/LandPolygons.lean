import Mathlib.Algebra.Order.Ring.Nat
import Mathlib.Data.List.Basic

/-!
# The GSHHG land polygon reader: `to_little_end` and `read_land_polygons_bin`

`read_land_polygons_bin` reads a binary GSHHG file: polygons one after the other, each an
eleven-`int` header (`gshhg_header_t`) followed by its `n` points of two `int`s, all big-endian.
It keeps the land polygons (level 1) that no polygon contains and whose bounding box overlaps the
region of interest, numbers their line segments consecutively (`global_line_segment_index`) and
counts them (`num_polygons`, `num_line_segments`); `p4est_gmt_model_latlong_new` makes the
segment count the model's `M`.

The file is the list of its bytes, and `fread` copies from it as the C library does on a regular
file. The host is little-endian, so an `int` read from the file holds its bytes in reverse order
until `to_little_end` swaps them. The loop `while (!feof (infile))` is `readLoop`, its body
`readStep`, and the part of the body after the header `readPolygon`.

The reader's result is `none` where it is not determined by the file:
* a header cut short after 11 bytes or more: `fread (h, 11, sizeof (int), infile)` counts whole
  11-byte items, and the rest of `h` is uninitialised;
* a negative point count: `malloc` and `fread` get a negative size;
* a signed overflow of `2 * poly_header.n` or of the segment counters;
* points cut short: the rest of `pts` is uninitialised;
* a 500001st kept polygon: it is written past the end of `all_used`.

The bounding-box test compares `double`s; it is the parameter `overlaps` on the header's four
extents as the file has them (micro-degrees; the header holds them over `1.0e6`). A point keeps
its two file values and whether 360 degrees were subtracted from its longitude: for an `int`
`x`, `x / 1.0e6 > 180.0` holds exactly when `x > 180000000`, as the division rounds correctly and
the spacing of `double`s near 180 is far below `1.0e-6`. The counters are `int`s in the source
and `Int` here, and `2 * poly_header.n` is an `int` product: where one of them would leave the
range of `int` (`FitsInt`), a signed overflow that is undefined in C, the reader's result is
`none` as well, so that wherever the model returns a list its `Int` arithmetic is the code's.
A file of fewer than `2 ^ 30` points never overflows.

* `toLittleEnd_ofBytes`: `to_little_end` reverses the bytes of an `int`; so it decodes the file's
  big-endian `int`s (`toLittleEnd_memInt_encodeInts`).
* `readLandPolygonsBin_wellFormed`: whatever the file, a list the reader returns has its segments
  numbered consecutively from 0, its counts right, and only kept polygons with all their points.
* `readLandPolygonsBin_encodeFile`: on the encoding of any polygons of fewer than `2 ^ 30` points
  in all, followed by fewer than 44 stray bytes, the reader returns exactly the kept polygons,
  numbered, or `none` when the stray bytes fill an 11-byte item or more than 500000 polygons are
  kept.
-/

namespace P4estTnodes.Gmt

/-! ## `int`s in memory and in the file -/

/-- Byte `k` of the `int` `i` in the memory of a little-endian host,
`((unsigned char *) &i)[k]`.
Source: `to_little_end` (gmt_models.c l. 236)
Kind: D -/
def memByte (i : BitVec 32) (k : Nat) : Nat := i.toNat / 2 ^ (8 * k) % 2 ^ 8

/-- `to_little_end`: the `int` with the bytes of `i` in reverse order. The shifted bytes and the
`|` are below `2 ^ 32`, and the result is read back as an `int`.
Source: `to_little_end` (gmt_models.c ll. 233–241)
Kind: D
Fidelity: exact on a little-endian host -/
def toLittleEnd (i : BitVec 32) : BitVec 32 :=
  BitVec.ofNat 32
    (memByte i 3 <<< 0 ||| memByte i 2 <<< 8 ||| memByte i 1 <<< 16 ||| memByte i 0 <<< 24)

/-- The `int` number `k` of a buffer into which `fread` copied the bytes `bs`, on a
little-endian host.
Source: the buffers `h` and `pts` of `read_land_polygons_bin` (gmt_models.c ll. 257, 275–276)
Kind: D -/
def memInt (bs : List UInt8) (k : Nat) : BitVec 32 :=
  BitVec.ofNat 32 ((bs.getD (4 * k) 0).toNat + 2 ^ 8 * (bs.getD (4 * k + 1) 0).toNat +
    2 ^ 16 * (bs.getD (4 * k + 2) 0).toNat + 2 ^ 24 * (bs.getD (4 * k + 3) 0).toNat)

/-- The four bytes of the `int` `x` in a GSHHG file, most significant first.
Source: the GSHHG format, big-endian (gmt_models.c l. 232)
Kind: D -/
def encodeInt (x : BitVec 32) : List UInt8 :=
  [memByte x 3, memByte x 2, memByte x 1, memByte x 0].map UInt8.ofNat

/-- The bytes of the `int`s `xs` in a GSHHG file.
Source: the GSHHG format
Kind: D -/
def encodeInts (xs : List (BitVec 32)) : List UInt8 := xs.flatMap encodeInt

lemma memByte_lt (i : BitVec 32) (k : Nat) : memByte i k < 2 ^ 8 := Nat.mod_lt _ (by decide)

/-- A byte shifted past the bits of `x` adds to it. -/
lemma or_shiftLeft_eq_add (k : Nat) {x d : Nat} (hx : x < 2 ^ k) : x ||| d <<< k = x + 2 ^ k * d := by
  rw [Nat.or_comm, Nat.shiftLeft_eq, Nat.mul_comm, ← Nat.mul_add_lt_is_or hx, Nat.add_comm]

lemma toLittleEnd_toNat (i : BitVec 32) : (toLittleEnd i).toNat =
    memByte i 3 + 2 ^ 8 * memByte i 2 + 2 ^ 16 * memByte i 1 + 2 ^ 24 * memByte i 0 := by
  have h3 := memByte_lt i 3
  have h2 := memByte_lt i 2
  have h1 := memByte_lt i 1
  have h0 := memByte_lt i 0
  rw [toLittleEnd, BitVec.toNat_ofNat, Nat.shiftLeft_zero, or_shiftLeft_eq_add 8 h3,
    or_shiftLeft_eq_add 16 (by omega), or_shiftLeft_eq_add 24 (by omega),
    Nat.mod_eq_of_lt (by omega)]

/-- An `int` is the sum of its bytes. -/
lemma toNat_eq_memBytes (i : BitVec 32) : i.toNat =
    memByte i 0 + 2 ^ 8 * memByte i 1 + 2 ^ 16 * memByte i 2 + 2 ^ 24 * memByte i 3 := by
  have := i.isLt
  simp only [memByte, Nat.reduceMul, Nat.reducePow, Nat.pow_zero, Nat.div_one]
  omega

/-- The bytes of the `int` with value `b0 + 2 ^ 8 * b1 + 2 ^ 16 * b2 + 2 ^ 24 * b3`. -/
lemma memByte_ofBytes {b0 b1 b2 b3 : Nat} (h0 : b0 < 2 ^ 8) (h1 : b1 < 2 ^ 8) (h2 : b2 < 2 ^ 8)
    (h3 : b3 < 2 ^ 8) (i : BitVec 32)
    (hi : i.toNat = b0 + 2 ^ 8 * b1 + 2 ^ 16 * b2 + 2 ^ 24 * b3) :
    memByte i 0 = b0 ∧ memByte i 1 = b1 ∧ memByte i 2 = b2 ∧ memByte i 3 = b3 := by
  simp only [memByte, hi, Nat.reduceMul, Nat.reducePow, Nat.pow_zero, Nat.div_one] at *
  omega

/-- An `int` is the `int` of its bytes. -/
lemma ofNat_memBytes (i : BitVec 32) :
    BitVec.ofNat 32 (memByte i 0 + 2 ^ 8 * memByte i 1 + 2 ^ 16 * memByte i 2 + 2 ^ 24 * memByte i 3)
      = i :=
  BitVec.eq_of_toNat_eq (by rw [BitVec.toNat_ofNat, ← toNat_eq_memBytes, Nat.mod_eq_of_lt i.isLt])

/-- **`to_little_end` reverses the bytes of an `int`.** -/
lemma toLittleEnd_ofBytes {b0 b1 b2 b3 : Nat} (h0 : b0 < 2 ^ 8) (h1 : b1 < 2 ^ 8)
    (h2 : b2 < 2 ^ 8) (h3 : b3 < 2 ^ 8) :
    toLittleEnd (BitVec.ofNat 32 (b0 + 2 ^ 8 * b1 + 2 ^ 16 * b2 + 2 ^ 24 * b3)) =
      BitVec.ofNat 32 (b3 + 2 ^ 8 * b2 + 2 ^ 16 * b1 + 2 ^ 24 * b0) := by
  have hw : (BitVec.ofNat 32 (b0 + 2 ^ 8 * b1 + 2 ^ 16 * b2 + 2 ^ 24 * b3)).toNat =
      b0 + 2 ^ 8 * b1 + 2 ^ 16 * b2 + 2 ^ 24 * b3 := by
    rw [BitVec.toNat_ofNat, Nat.mod_eq_of_lt (by omega)]
  obtain ⟨e0, e1, e2, e3⟩ := memByte_ofBytes h0 h1 h2 h3 _ hw
  exact BitVec.eq_of_toNat_eq (by
    rw [toLittleEnd_toNat, e0, e1, e2, e3, BitVec.toNat_ofNat, Nat.mod_eq_of_lt (by omega)])

@[simp] lemma length_encodeInts (xs : List (BitVec 32)) : (encodeInts xs).length = 4 * xs.length := by
  induction xs with
  | nil => rfl
  | cons x xs ih =>
    simp only [encodeInts, List.flatMap_cons, List.length_append, encodeInt, List.length_map,
      List.length_cons, List.length_nil] at ih ⊢
    omega

lemma memInt_cons4 (a b c d : UInt8) (bs : List UInt8) (k : Nat) :
    memInt (a :: b :: c :: d :: bs) (k + 1) = memInt bs k := by
  simp only [memInt, show 4 * (k + 1) = 4 * k + 1 + 1 + 1 + 1 by omega, List.getD_cons_succ]

/-- **The file's `int`s read back**: `to_little_end` of the `int` number `k` of a buffer filled
from the encoding of `xs` is `xs`'s `k`-th. -/
lemma toLittleEnd_memInt_encodeInts :
    ∀ (xs : List (BitVec 32)) (k : Nat), k < xs.length →
      toLittleEnd (memInt (encodeInts xs) k) = xs.getD k 0
  | [], _, h => absurd h (Nat.not_lt_zero _)
  | x :: xs, k, h => by
    have hb : ∀ j, (UInt8.ofNat (memByte x j)).toNat = memByte x j := fun j =>
      UInt8.toNat_ofNat_of_lt (memByte_lt x j)
    cases k with
    | zero =>
      simp only [encodeInts, List.flatMap_cons, encodeInt, List.map_cons, List.map_nil,
        List.cons_append, List.nil_append, memInt, Nat.mul_zero, Nat.zero_add, List.getD_cons_zero,
        List.getD_cons_succ, hb, List.getD_cons_zero]
      rw [toLittleEnd_ofBytes (memByte_lt x 3) (memByte_lt x 2) (memByte_lt x 1) (memByte_lt x 0),
        ofNat_memBytes]
    | succ k =>
      simp only [encodeInts, List.flatMap_cons, encodeInt, List.map_cons, List.map_nil,
        List.cons_append, List.nil_append, memInt_cons4, List.getD_cons_succ]
      exact toLittleEnd_memInt_encodeInts xs k (Nat.lt_of_succ_lt_succ h)

/-! ## The reader -/

/-- `INT_MAX` for a 32-bit `int`.
Source: gmt_models.c l. 560, and the `int`s of `read_land_polygons_bin` (ll. 249–301)
Kind: D -/
def intMax : Nat := 2 ^ 31 - 1

lemma intMax_eq : intMax = 2147483647 := rfl

/-- The exact value `x` of a signed `int` operation is an `int`; otherwise the operation
overflows, which is undefined in C.
Source: the `int` arithmetic of `read_land_polygons_bin` (gmt_models.c ll. 275–301)
Kind: D -/
def FitsInt (x : Int) : Prop := -(intMax : Int) - 1 ≤ x ∧ x ≤ intMax

instance (x : Int) : Decidable (FitsInt x) := inferInstanceAs (Decidable (_ ∧ _))

/-- What `fread (ptr, size, nmemb, infile)` does on a regular file whose unread bytes are `rest`.
Source: the C library's `fread`, as `read_land_polygons_bin` calls it (gmt_models.c ll. 258, 279)
Kind: D -/
structure Fread where
  /-- The bytes copied to `ptr`: at most `size * nmemb`. -/
  got : List UInt8
  /-- The bytes left unread. -/
  rest : List UInt8
  /-- The read reached the end of the file: `feof` holds from now on. -/
  eof : Bool
  /-- The return value: the count of whole items copied. -/
  count : Nat

/-- `fread (ptr, size, nmemb, infile)` on the unread bytes `rest` of a regular file.
Source: the C library's `fread`
Kind: D -/
def fread (size nmemb : Nat) (rest : List UInt8) : Fread where
  got := rest.take (size * nmemb)
  rest := rest.drop (size * nmemb)
  eof := decide (rest.length < size * nmemb)
  count := (rest.take (size * nmemb)).length / size

/-- A point as `read_land_polygons_bin` stores it in `coord_list`: its longitude and latitude as
the file has them (`coord_list` holds them over `1.0e6`), and whether `360.0` was subtracted from
the longitude.
Source: `read_land_polygons_bin` (gmt_models.c ll. 281–287)
Kind: D -/
structure Coord where
  /-- The longitude in micro-degrees. -/
  lon : BitVec 32
  /-- The latitude in micro-degrees. -/
  lat : BitVec 32
  /-- `coord_list[2 * i] > 180.0`, so that `360.0` was subtracted. -/
  shifted : Bool
  deriving DecidableEq, Repr, Inhabited

/-- The point of the file values `x` and `y`.
Source: `read_land_polygons_bin` (gmt_models.c ll. 282–286)
Kind: D
Fidelity: exact on the comparison; the `double` values are left symbolic -/
def readCoord (x y : BitVec 32) : Coord := ⟨x, y, decide (180000000 < x.toInt)⟩

/-- A polygon's header as `read_land_polygons_bin` stores it, `gshhg_header_t`: the `int`s of the
file, the extents `west`, `east`, `south`, `north` as the file has them (the header holds them
over `1.0e6`), the number of the polygon's first line segment, and its points.
Source: `gshhg_header_t` (part_003 ll. 83–104)
Kind: D -/
structure GshhgHeader where
  /-- Polygon id. -/
  id : BitVec 32
  /-- Number of points. -/
  n : BitVec 32
  /-- Level, version, greenwich, source and river bits. -/
  flag : BitVec 32
  /-- Extents in micro-degrees. -/
  west : BitVec 32
  east : BitVec 32
  south : BitVec 32
  north : BitVec 32
  /-- Areas in 1/10 km². -/
  area : BitVec 32
  areaFull : BitVec 32
  /-- Id of the enclosing polygon, `-1` if none. -/
  container : BitVec 32
  /-- Id of the full-resolution ancestor, `-1` if none. -/
  ancestor : BitVec 32
  /-- Number of the polygon's first line segment among the kept polygons, `-1` if not kept. -/
  globalLineSegmentIndex : Int
  /-- The points. -/
  pts : List Coord
  deriving DecidableEq, Repr, Inhabited

/-- The header of the 44 bytes `hb`, before its points are read.
Source: `read_land_polygons_bin` (gmt_models.c ll. 260–271)
Kind: D
Fidelity: exact -/
def gshhgHeader (hb : List UInt8) : GshhgHeader where
  id := toLittleEnd (memInt hb 0)
  n := toLittleEnd (memInt hb 1)
  flag := toLittleEnd (memInt hb 2)
  west := toLittleEnd (memInt hb 3)
  east := toLittleEnd (memInt hb 4)
  south := toLittleEnd (memInt hb 5)
  north := toLittleEnd (memInt hb 6)
  area := toLittleEnd (memInt hb 7)
  areaFull := toLittleEnd (memInt hb 8)
  container := toLittleEnd (memInt hb 9)
  ancestor := toLittleEnd (memInt hb 10)
  globalLineSegmentIndex := -1
  pts := []

/-- The `n` points of the bytes `pb`.
Source: `read_land_polygons_bin` (gmt_models.c ll. 281–287)
Kind: D
Fidelity: exact -/
def readCoords (pb : List UInt8) (n : Nat) : List Coord :=
  (List.range n).map fun i =>
    readCoord (toLittleEnd (memInt pb (2 * i))) (toLittleEnd (memInt pb (2 * i + 1)))

/-- Whether `read_land_polygons_bin` keeps the polygon `hd`: a land polygon (`level`, the low
byte of `flag`, is 1) in no container, whose bounding box overlaps the region.
Source: `read_land_polygons_bin` (gmt_models.c ll. 289–294)
Kind: D
Fidelity: exact; the bounding-box test is the parameter `overlaps` -/
def GshhgHeader.kept (overlaps : BitVec 32 → BitVec 32 → BitVec 32 → BitVec 32 → Bool)
    (hd : GshhgHeader) : Bool :=
  (hd.flag &&& 255#32) == 1#32 && hd.container.toInt == -1 &&
    overlaps hd.west hd.east hd.south hd.north

/-- The reader's state between iterations of its loop: the unread bytes, `feof (infile)`, and
the locals `num_polygons`, `num_line_segments`, `global_line_segment_index` and `all_used` (its
first `num_polygons` entries).
Source: `read_land_polygons_bin` (gmt_models.c ll. 249–254)
Kind: D -/
structure ReadState where
  /-- The bytes of the file not yet read. -/
  rest : List UInt8
  /-- `feof (infile)`. -/
  eof : Bool
  /-- `num_polygons`. -/
  numPolygons : Nat
  /-- `num_line_segments`. -/
  numLineSegments : Int
  /-- `global_line_segment_index`. -/
  globalLineSegmentIndex : Int
  /-- `all_used[0 .. num_polygons)`. -/
  allUsed : List GshhgHeader

/-- Keep the polygon `hd`: store it in `all_used` with the number of its first line segment,
and count it.
Source: `read_land_polygons_bin` (gmt_models.c ll. 295–301)
Kind: D
Fidelity: exact -/
def ReadState.keep (st : ReadState) (hd : GshhgHeader) : ReadState :=
  { st with
    allUsed := st.allUsed ++ [{ hd with globalLineSegmentIndex := st.globalLineSegmentIndex }]
    numPolygons := st.numPolygons + 1
    numLineSegments := st.numLineSegments + (hd.n.toInt - 1)
    globalLineSegmentIndex := st.globalLineSegmentIndex + (hd.n.toInt - 1) }

@[simp] lemma ReadState.keep_rest (st : ReadState) (hd : GshhgHeader) :
    (st.keep hd).rest = st.rest := rfl

@[simp] lemma ReadState.keep_eof (st : ReadState) (hd : GshhgHeader) :
    (st.keep hd).eof = st.eof := rfl

@[simp] lemma ReadState.keep_allUsed (st : ReadState) (hd : GshhgHeader) :
    (st.keep hd).allUsed =
      st.allUsed ++ [{ hd with globalLineSegmentIndex := st.globalLineSegmentIndex }] := rfl

@[simp] lemma ReadState.keep_numPolygons (st : ReadState) (hd : GshhgHeader) :
    (st.keep hd).numPolygons = st.numPolygons + 1 := rfl

@[simp] lemma ReadState.keep_numLineSegments (st : ReadState) (hd : GshhgHeader) :
    (st.keep hd).numLineSegments = st.numLineSegments + (hd.n.toInt - 1) := rfl

@[simp] lemma ReadState.keep_globalLineSegmentIndex (st : ReadState) (hd : GshhgHeader) :
    (st.keep hd).globalLineSegmentIndex = st.globalLineSegmentIndex + (hd.n.toInt - 1) := rfl

/-- The part of an iteration after the header `hd` has been read: read its points, and keep it
or not.
Source: `read_land_polygons_bin` (gmt_models.c ll. 275–312)
Kind: D
Fidelity: exact; `none` for a negative count, an overflow of `2 * n` or of a counter, points cut
short or a full `all_used` -/
def readPolygon (overlaps : BitVec 32 → BitVec 32 → BitVec 32 → BitVec 32 → Bool)
    (hd : GshhgHeader) (st : ReadState) : Option ReadState :=
  if hd.n.toInt < 0 ∨ ¬ FitsInt (2 * hd.n.toInt) then none else
  let r := fread (2 * hd.n.toInt.toNat) 4 st.rest
  let st := { st with rest := r.rest, eof := st.eof || r.eof }
  if r.got.length < 2 * hd.n.toInt.toNat * 4 then none else
  let hd := { hd with pts := readCoords r.got hd.n.toInt.toNat }
  if hd.kept overlaps then
    if st.numPolygons < 500000 ∧ FitsInt (st.numLineSegments + (hd.n.toInt - 1)) ∧
        FitsInt (st.globalLineSegmentIndex + (hd.n.toInt - 1)) then some (st.keep hd)
    else none
  else some st

/-- One iteration of the loop: read a header and, if a whole item of it was read, the rest of
the polygon.
Source: `read_land_polygons_bin` (gmt_models.c ll. 256–313)
Kind: D
Fidelity: exact; `none` for a header cut short after a whole item -/
def readStep (overlaps : BitVec 32 → BitVec 32 → BitVec 32 → BitVec 32 → Bool)
    (st : ReadState) : Option ReadState :=
  let r := fread 11 4 st.rest
  let st := { st with rest := r.rest, eof := st.eof || r.eof }
  if 0 < r.count then
    if r.got.length < 11 * 4 then none else readPolygon overlaps (gshhgHeader r.got) st
  else some st

/-- What is left for the loop: nothing after the end of the file, otherwise the unread bytes and
one more test.
Source: none: termination measure
Kind: D -/
def ReadState.left (st : ReadState) : Nat := if st.eof then 0 else st.rest.length + 1

/-- The bytes `fread` copies when the file has them all. -/
lemma fread_of_le {size nmemb : Nat} {rest : List UInt8} (h : size * nmemb ≤ rest.length) :
    (fread size nmemb rest).got.length = size * nmemb ∧ (fread size nmemb rest).eof = false := by
  simp only [fread, List.length_take, Nat.min_eq_left h, decide_eq_false_iff_not, not_lt, h,
    and_self]

/-- What one polygon does to the state: its count `n` is not negative, the file has the `8 * n`
bytes of its points, and it is kept, with room in `all_used`, or left. -/
lemma readPolygon_cases {overlaps : BitVec 32 → BitVec 32 → BitVec 32 → BitVec 32 → Bool}
    {hd : GshhgHeader} {st st' : ReadState} (h : readPolygon overlaps hd st = some st') :
    ∃ n : Nat, hd.n.toInt = n ∧ 2 * n * 4 ≤ st.rest.length ∧
      (({ hd with pts := readCoords (st.rest.take (2 * n * 4)) n }.kept overlaps = true ∧
        st.numPolygons < 500000 ∧ st' = ({ st with rest := st.rest.drop (2 * n * 4) }).keep
          { hd with pts := readCoords (st.rest.take (2 * n * 4)) n }) ∨
      ({ hd with pts := readCoords (st.rest.take (2 * n * 4)) n }.kept overlaps = false ∧
        st' = { st with rest := st.rest.drop (2 * n * 4) })) := by
  unfold readPolygon at h
  dsimp only at h
  split_ifs at h with hn hs hk hc <;> cases h
  all_goals
    have hn0 : 0 ≤ hd.n.toInt := le_of_not_lt fun h => hn (.inl h)
    have hlen : 2 * hd.n.toInt.toNat * 4 ≤ st.rest.length := by
      simp only [fread, List.length_take] at hs
      omega
    have heof := (fread_of_le hlen).2
    refine ⟨hd.n.toInt.toNat, by omega, hlen, ?_⟩
    simp only [heof, Bool.or_false]
  · exact .inl ⟨hk, hc.1, rfl⟩
  · exact .inr ⟨Bool.eq_false_iff.mpr hk, rfl⟩
/-- **Every iteration makes progress**: it reads bytes or reaches the end of the file. -/
lemma readStep_left_lt {overlaps : BitVec 32 → BitVec 32 → BitVec 32 → BitVec 32 → Bool}
    {st st' : ReadState} (he : ¬ st.eof = true) (h : readStep overlaps st = some st') :
    st'.left < st.left := by
  have hfin : st'.rest.length ≤ (st.rest.drop 44).length ∧
      (decide (st.rest.length < 44) = true → st'.eof = true) := by
    unfold readStep at h
    simp only [fread, Nat.reduceMul, Bool.eq_false_iff.mpr he, Bool.false_or] at h
    split_ifs at h
    · obtain ⟨n, -, -, ⟨-, -, rfl⟩ | ⟨-, rfl⟩⟩ := readPolygon_cases h <;>
        exact ⟨by simp only [ReadState.keep_rest, List.length_drop]; omega, id⟩
    · cases h
      exact ⟨le_rfl, id⟩
  rw [ReadState.left, ReadState.left, if_neg he]
  split_ifs with he'
  · exact Nat.succ_pos _
  · have h44 : ¬ st.rest.length < 44 := fun hl => he' (hfin.2 (decide_eq_true hl))
    rw [List.length_drop] at hfin
    omega

/-- The loop `while (!feof (infile))`.
Source: `read_land_polygons_bin` (gmt_models.c ll. 255–314)
Kind: D
Fidelity: exact -/
def readLoop (overlaps : BitVec 32 → BitVec 32 → BitVec 32 → BitVec 32 → Bool)
    (st : ReadState) : Option ReadState :=
  if _he : st.eof then some st
  else match _hs : readStep overlaps st with
    | none => none
    | some st' => readLoop overlaps st'
termination_by st.left
decreasing_by exact readStep_left_lt _he _hs

/-- What `read_land_polygons_bin` returns, `coastline_polygon_list_t`; the region's bounding box
it copies from its arguments is left out with the region.
Source: `coastline_polygon_list_t` (part_003 ll. 106–116)
Kind: D -/
structure CoastlinePolygonList where
  /-- `polygon_headers[0 .. num_polygons)`. -/
  polygonHeaders : List GshhgHeader
  /-- `num_polygons`. -/
  numPolygons : Nat
  /-- `num_line_segments`. -/
  numLineSegments : Int
  deriving DecidableEq, Repr

/-- The list `read_land_polygons_bin` returns from the state its loop ends in.
Source: `read_land_polygons_bin` (gmt_models.c ll. 316–321)
Kind: D -/
def ReadState.result (st : ReadState) : CoastlinePolygonList :=
  ⟨st.allUsed, st.numPolygons, st.numLineSegments⟩

@[simp] lemma ReadState.result_polygonHeaders (st : ReadState) :
    st.result.polygonHeaders = st.allUsed := rfl

@[simp] lemma ReadState.result_numPolygons (st : ReadState) :
    st.result.numPolygons = st.numPolygons := rfl

@[simp] lemma ReadState.result_numLineSegments (st : ReadState) :
    st.result.numLineSegments = st.numLineSegments := rfl

/-- `read_land_polygons_bin` on the bytes `file`, with the region's bounding-box test `overlaps`.
Source: `read_land_polygons_bin` (gmt_models.c ll. 243–328)
Kind: D
Fidelity: exact; the open, the messages and the frees are left out -/
def readLandPolygonsBin (overlaps : BitVec 32 → BitVec 32 → BitVec 32 → BitVec 32 → Bool)
    (file : List UInt8) : Option CoastlinePolygonList :=
  (readLoop overlaps ⟨file, false, 0, 0, 0, []⟩).map ReadState.result

section loop

variable {overlaps : BitVec 32 → BitVec 32 → BitVec 32 → BitVec 32 → Bool} {st st' : ReadState}

lemma readLoop_of_eof (he : st.eof = true) : readLoop overlaps st = some st := by
  rw [readLoop, dif_pos he]

lemma readLoop_of_readStep (he : ¬ st.eof = true) (hs : readStep overlaps st = some st') :
    readLoop overlaps st = readLoop overlaps st' := by
  rw [readLoop, dif_neg he]
  split <;> simp_all

lemma readLoop_of_readStep_none (he : ¬ st.eof = true) (hs : readStep overlaps st = none) :
    readLoop overlaps st = none := by
  rw [readLoop, dif_neg he]
  split <;> simp_all

end loop

/-! ## What the reader returns, for every file -/

/-- The count of line segments of the polygons `hs`: a closed polygon of `n` points has `n - 1`.
Source: `read_land_polygons_bin` (gmt_models.c ll. 298–301)
Kind: D -/
def segmentCount : List GshhgHeader → Int
  | [] => 0
  | hd :: hs => (hd.n.toInt - 1) + segmentCount hs

/-- The polygons `hs` with their line segments numbered consecutively from `start`: the
`global_line_segment_index` of each is `start` plus the count of segments before it.
Source: `read_land_polygons_bin` (gmt_models.c ll. 295–301)
Kind: D -/
def numberSegments : Int → List GshhgHeader → List GshhgHeader
  | _, [] => []
  | i, hd :: hs =>
    { hd with globalLineSegmentIndex := i } :: numberSegments (i + (hd.n.toInt - 1)) hs

@[simp] lemma segmentCount_append (hs hs' : List GshhgHeader) :
    segmentCount (hs ++ hs') = segmentCount hs + segmentCount hs' := by
  induction hs with
  | nil => simp [segmentCount]
  | cons hd hs ih => rw [List.cons_append, segmentCount, segmentCount, ih, Int.add_assoc]

lemma numberSegments_append (hs hs' : List GshhgHeader) :
    ∀ i, numberSegments i (hs ++ hs') = numberSegments i hs ++ numberSegments (i + segmentCount hs) hs' := by
  induction hs with
  | nil => simp [numberSegments, segmentCount]
  | cons hd hs ih =>
    intro i
    rw [List.cons_append, numberSegments, numberSegments, ih, segmentCount, List.cons_append,
      Int.add_assoc]

/-- **A well-formed polygon list**: its count is its length, at most the 500000 entries of
`all_used`; its line segments are numbered consecutively from 0 and counted by
`num_line_segments`; and it holds only kept polygons, each with as many points as its count.
Source: `read_land_polygons_bin` (gmt_models.c ll. 289–327)
Kind: D -/
structure CoastlinePolygonList.WellFormed
    (overlaps : BitVec 32 → BitVec 32 → BitVec 32 → BitVec 32 → Bool)
    (pl : CoastlinePolygonList) : Prop where
  numPolygons : pl.numPolygons = pl.polygonHeaders.length
  capacity : pl.numPolygons ≤ 500000
  numbered : numberSegments 0 pl.polygonHeaders = pl.polygonHeaders
  numLineSegments : pl.numLineSegments = segmentCount pl.polygonHeaders
  kept : ∀ hd ∈ pl.polygonHeaders, hd.kept overlaps = true ∧ (hd.pts.length : Int) = hd.n.toInt

/-- The loop invariant: the list so far is well formed, and `global_line_segment_index` is the
count of its segments.
Source: `read_land_polygons_bin` (gmt_models.c ll. 255–314)
Kind: D -/
structure ReadInv (overlaps : BitVec 32 → BitVec 32 → BitVec 32 → BitVec 32 → Bool)
    (st : ReadState) : Prop where
  wellFormed : st.result.WellFormed overlaps
  index : st.globalLineSegmentIndex = segmentCount st.allUsed

section inv

variable {overlaps : BitVec 32 → BitVec 32 → BitVec 32 → BitVec 32 → Bool} {st st' : ReadState}

lemma readInv_start (file : List UInt8) : ReadInv overlaps ⟨file, false, 0, 0, 0, []⟩ :=
  ⟨⟨rfl, Nat.zero_le _, rfl, rfl, fun _ h => absurd h (List.not_mem_nil _)⟩, rfl⟩

/-- The invariant does not read the file's position. -/
lemma ReadInv.setRest (h : ReadInv overlaps st) (rest : List UInt8) (eof : Bool) :
    ReadInv overlaps { st with rest := rest, eof := eof } := ⟨h.wellFormed, h.index⟩

/-- Keeping a polygon with all its points, while `all_used` has room, keeps the invariant. -/
lemma ReadInv.keep (h : ReadInv overlaps st) {hd : GshhgHeader} (hk : hd.kept overlaps = true)
    (hc : st.numPolygons < 500000) (hpts : (hd.pts.length : Int) = hd.n.toInt) :
    ReadInv overlaps (st.keep hd) := by
  obtain ⟨⟨hn, -, hnum, hseg, hkept⟩, hi⟩ := h
  simp only [ReadState.result_numPolygons, ReadState.result_polygonHeaders,
    ReadState.result_numLineSegments] at hn hnum hseg hkept
  refine ⟨⟨?_, hc, ?_, ?_, fun hd' hm => ?_⟩, ?_⟩ <;>
    simp only [ReadState.result_numPolygons, ReadState.result_polygonHeaders,
      ReadState.result_numLineSegments, ReadState.keep_allUsed, ReadState.keep_numPolygons,
      ReadState.keep_numLineSegments, ReadState.keep_globalLineSegmentIndex, List.mem_append,
      List.mem_singleton] at *
  · rw [List.length_append, List.length_singleton, hn]
  · rw [numberSegments_append, hnum, Int.zero_add, ← hi]
    rfl
  · rw [segmentCount_append, segmentCount, segmentCount, hseg, Int.add_zero]
  · rcases hm with hm | rfl
    · exact hkept hd' hm
    · exact ⟨hk, hpts⟩
  · rw [segmentCount_append, segmentCount, segmentCount, hi, Int.add_zero]

lemma length_readCoords (pb : List UInt8) (n : Nat) : (readCoords pb n).length = n := by
  simp [readCoords]

lemma ReadInv.readPolygon (h : ReadInv overlaps st) {hd : GshhgHeader}
    (hs : readPolygon overlaps hd st = some st') : ReadInv overlaps st' := by
  obtain ⟨n, hn, -, ⟨hk, hc, rfl⟩ | ⟨-, rfl⟩⟩ := readPolygon_cases hs
  · exact (h.setRest _ st.eof).keep hk hc (by rw [length_readCoords, hn])
  · exact h.setRest _ st.eof

lemma ReadInv.readStep (h : ReadInv overlaps st) (hs : readStep overlaps st = some st') :
    ReadInv overlaps st' := by
  unfold Gmt.readStep at hs
  dsimp only at hs
  split_ifs at hs
  · exact (h.setRest _ _).readPolygon hs
  · cases hs
    exact h.setRest _ _

/-- **The invariant holds of every run of the loop.** -/
lemma ReadInv.readLoop (h : ReadInv overlaps st) (hs : readLoop overlaps st = some st') :
    ReadInv overlaps st' := by
  induction st using readLoop.induct overlaps with
  | case1 st he => rwa [← Option.some_inj.mp ((readLoop_of_eof he).symm.trans hs)]
  | case2 st he hn => rw [readLoop_of_readStep_none he hn] at hs; cases hs
  | case3 st he st'' hstep ih => exact ih (h.readStep hstep) (by rwa [← readLoop_of_readStep he hstep])

end inv

/-- **Whatever the file, the list the reader returns is well formed**: at most 500000 polygons,
counted by `num_polygons`; their line segments numbered consecutively from 0, each polygon's
`global_line_segment_index` the count of segments before it, and `num_line_segments` their
total; and only land polygons in no container whose box overlaps the region, each with as many
points as its count. The reader returns no list where one of its `int`s would overflow, so these
counts are the code's.
Source: `read_land_polygons_bin` (gmt_models.c ll. 243–328)
Kind: P -/
theorem readLandPolygonsBin_wellFormed
    (overlaps : BitVec 32 → BitVec 32 → BitVec 32 → BitVec 32 → Bool) (file : List UInt8)
    (pl : CoastlinePolygonList) (h : readLandPolygonsBin overlaps file = some pl) :
    pl.WellFormed overlaps := by
  obtain ⟨st, hs, rfl⟩ := Option.map_eq_some'.mp h
  exact ((readInv_start file).readLoop hs).wellFormed

/-! ## The file format, read back -/

/-- A polygon as a GSHHG file stores it: the eleven `int`s of its header and its points, as many
as its count `n`.
Source: `gshhg_header_t` (part_003 ll. 83–104) and the GSHHG format
Kind: D -/
structure GshhgRecord where
  /-- The header's `int`s. -/
  id : BitVec 32
  n : BitVec 32
  flag : BitVec 32
  west : BitVec 32
  east : BitVec 32
  south : BitVec 32
  north : BitVec 32
  area : BitVec 32
  areaFull : BitVec 32
  container : BitVec 32
  ancestor : BitVec 32
  /-- The points, longitude and latitude in micro-degrees. -/
  pts : List (BitVec 32 × BitVec 32)
  /-- The header counts the points. -/
  n_eq : n.toInt = pts.length

/-- The header's `int`s in file order.
Source: the GSHHG format (part_003 ll. 83–104)
Kind: D -/
def GshhgRecord.words (r : GshhgRecord) : List (BitVec 32) :=
  [r.id, r.n, r.flag, r.west, r.east, r.south, r.north, r.area, r.areaFull, r.container, r.ancestor]

/-- The bytes of a polygon in the file: its header, then its points.
Source: the GSHHG format
Kind: D -/
def GshhgRecord.encode (r : GshhgRecord) : List UInt8 :=
  encodeInts r.words ++ encodeInts (r.pts.flatMap fun p => [p.1, p.2])

/-- The bytes of a GSHHG file of the polygons `rs`.
Source: the GSHHG format
Kind: D -/
def encodeFile (rs : List GshhgRecord) : List UInt8 := rs.flatMap GshhgRecord.encode

/-- The number of points of the polygons `rs`.
Source: the GSHHG format
Kind: D -/
def pointCount (rs : List GshhgRecord) : Nat := (rs.map fun r => r.pts.length).sum

lemma pointCount_cons (r : GshhgRecord) (rs : List GshhgRecord) :
    pointCount (r :: rs) = r.pts.length + pointCount rs := by
  rw [pointCount, List.map_cons, List.sum_cons, ← pointCount]

/-- The header the reader should make of a polygon of the file, before numbering it.
Source: `read_land_polygons_bin` (gmt_models.c ll. 260–288)
Kind: D -/
def GshhgRecord.header (r : GshhgRecord) : GshhgHeader where
  id := r.id
  n := r.n
  flag := r.flag
  west := r.west
  east := r.east
  south := r.south
  north := r.north
  area := r.area
  areaFull := r.areaFull
  container := r.container
  ancestor := r.ancestor
  globalLineSegmentIndex := -1
  pts := r.pts.map fun p => readCoord p.1 p.2

/-- The headers of the polygons of `rs` the reader should keep, in file order.
Source: `read_land_polygons_bin` (gmt_models.c ll. 289–294)
Kind: D -/
def keptHeaders (overlaps : BitVec 32 → BitVec 32 → BitVec 32 → BitVec 32 → Bool)
    (rs : List GshhgRecord) : List GshhgHeader :=
  (rs.map GshhgRecord.header).filter (GshhgHeader.kept overlaps)

lemma gshhgHeader_encodeInts (r : GshhgRecord) :
    gshhgHeader (encodeInts r.words) = { r.header with pts := [] } := by
  have h : ∀ k < 11, toLittleEnd (memInt (encodeInts r.words) k) = r.words.getD k 0 :=
    toLittleEnd_memInt_encodeInts r.words
  simp only [gshhgHeader, h 0 (by decide), h 1 (by decide), h 2 (by decide), h 3 (by decide),
    h 4 (by decide), h 5 (by decide), h 6 (by decide), h 7 (by decide), h 8 (by decide),
    h 9 (by decide), h 10 (by decide)]
  rfl

lemma readCoords_cons8 (a b c d e f g k : UInt8) (bs : List UInt8) (n : Nat) :
    readCoords (a :: b :: c :: d :: e :: f :: g :: k :: bs) (n + 1) =
      readCoord (toLittleEnd (memInt (a :: b :: c :: d :: e :: f :: g :: k :: bs) 0))
        (toLittleEnd (memInt (a :: b :: c :: d :: e :: f :: g :: k :: bs) 1)) ::
      readCoords bs n := by
  simp only [readCoords, List.range_succ_eq_map, List.map_cons, List.map_map, Nat.mul_zero,
    Nat.zero_add]
  congr 1

/-- The points of a polygon read back. -/
lemma readCoords_encodeInts :
    ∀ pts : List (BitVec 32 × BitVec 32),
      readCoords (encodeInts (pts.flatMap fun p => [p.1, p.2])) pts.length =
        pts.map fun p => readCoord p.1 p.2
  | [] => rfl
  | (x, y) :: pts => by
    have h := toLittleEnd_memInt_encodeInts (x :: y :: pts.flatMap fun p => [p.1, p.2])
    simp only [encodeInts, List.flatMap_cons, encodeInt, List.map_cons, List.map_nil,
      List.cons_append, List.nil_append, List.length_cons] at h ⊢
    rw [readCoords_cons8, ← encodeInts, readCoords_encodeInts pts]
    exact congrArg₂ (fun a b => readCoord a b :: _) (h 0 (by simp)) (h 1 (by simp))

section roundTrip

variable {overlaps : BitVec 32 → BitVec 32 → BitVec 32 → BitVec 32 → Bool}

/-- A polygon of `n` points, `2 * n` an `int`, whose `8 * n` bytes of points the file has is
kept, if `all_used` has room and the counters do not overflow, or left. -/
lemma readPolygon_of_le {hd : GshhgHeader} {st : ReadState} {n : Nat} (hn : hd.n.toInt = n)
    (h2n : 2 * n ≤ intMax) (hlen : 2 * n * 4 ≤ st.rest.length) :
    readPolygon overlaps hd st =
      if ({ hd with pts := readCoords (st.rest.take (2 * n * 4)) n } : GshhgHeader).kept overlaps
      then
        if st.numPolygons < 500000 ∧ FitsInt (st.numLineSegments + (n - 1)) ∧
            FitsInt (st.globalLineSegmentIndex + (n - 1)) then
          some (({ st with rest := st.rest.drop (2 * n * 4) } : ReadState).keep
            { hd with pts := readCoords (st.rest.take (2 * n * 4)) n })
        else none
      else some { st with rest := st.rest.drop (2 * n * 4) } := by
  have hn' : hd.n.toInt.toNat = n := by omega
  have h2 : FitsInt (2 * hd.n.toInt) := ⟨by omega, by omega⟩
  obtain ⟨hg, he⟩ := fread_of_le hlen
  unfold readPolygon
  dsimp only
  rw [if_neg (not_or.mpr ⟨by omega, not_not.mpr h2⟩), hn', if_neg (by omega), he, Bool.or_false,
    hn]
  rfl

/-- `fread` of a whole item list the file has. -/
lemma fread_append {size nmemb : Nat} {l : List UInt8} (more : List UInt8)
    (h : l.length = size * nmemb) : fread size nmemb (l ++ more) = ⟨l, more, false, l.length / size⟩ := by
  have hlt : ¬ l.length + more.length < l.length := by omega
  simp only [fread, ← h, List.take_left' rfl, List.drop_left' rfl, List.length_append, hlt,
    decide_False]

lemma length_flatMap_pair : ∀ pts : List (BitVec 32 × BitVec 32),
    (pts.flatMap fun p => [p.1, p.2]).length = 2 * pts.length
  | [] => rfl
  | p :: pts => by
    simp only [List.flatMap_cons, List.length_append, List.length_cons, List.length_nil,
      length_flatMap_pair pts]
    omega

/-- **One polygon of the file, read back**: an iteration on its bytes keeps its header, if it is
kept, `all_used` has room and the counters do not overflow, and moves past it. -/
lemma readStep_encode (r : GshhgRecord) (more : List UInt8) {st : ReadState}
    (he : st.eof = false) (hr : st.rest = r.encode ++ more) (h2n : 2 * r.pts.length ≤ intMax) :
    readStep overlaps st =
      if r.header.kept overlaps then
        if st.numPolygons < 500000 ∧ FitsInt (st.numLineSegments + (r.pts.length - 1)) ∧
            FitsInt (st.globalLineSegmentIndex + (r.pts.length - 1)) then
          some (({ st with rest := more } : ReadState).keep r.header)
        else none
      else some { st with rest := more } := by
  have hw : (encodeInts r.words).length = 11 * 4 := by simp [GshhgRecord.words]
  have hp : (encodeInts (r.pts.flatMap fun p => [p.1, p.2])).length = 2 * r.pts.length * 4 := by
    rw [length_encodeInts, length_flatMap_pair]
    omega
  unfold readStep
  rw [hr, GshhgRecord.encode, List.append_assoc, fread_append _ hw]
  dsimp only
  rw [he, Bool.false_or, if_pos (by rw [hw]; decide), if_neg (by omega), gshhgHeader_encodeInts,
    readPolygon_of_le r.n_eq h2n (by simp only [List.length_append, hp]; omega),
    List.take_left' hp, List.drop_left' hp, readCoords_encodeInts]
  rfl

lemma keptHeaders_cons (r : GshhgRecord) (rs : List GshhgRecord) :
    keptHeaders overlaps (r :: rs) =
      if r.header.kept overlaps then r.header :: keptHeaders overlaps rs
      else keptHeaders overlaps rs := by
  simp only [keptHeaders, List.map_cons, List.filter_cons]

/-- The end of the file: fewer than 44 stray bytes are ignored below 11 and break the read
from 11 on. -/
lemma readStep_tail {tail : List UInt8} (htail : tail.length < 44) {st : ReadState}
    (hr : st.rest = tail) :
    readStep overlaps st =
      if tail.length < 11 then some { st with rest := [], eof := true } else none := by
  have hf : fread 11 4 st.rest = ⟨tail, [], true, tail.length / 11⟩ := by
    simp only [fread, hr, List.take_of_length_le (by omega : tail.length ≤ 11 * 4),
      List.drop_of_length_le (by omega : tail.length ≤ 11 * 4), htail, decide_True]
  unfold readStep
  rw [hf]
  dsimp only
  rw [Bool.or_true]
  split_ifs <;> first | rfl | omega

/-- **The loop on an encoded file**, from any state before it with room in `all_used` and with
`num_line_segments`, equal to `global_line_segment_index`, at least minus the polygons kept and
at most `INT_MAX` less the points still to read: no `int` overflows on the way. -/
lemma readLoop_encodeFile {tail : List UInt8} (htail : tail.length < 44) :
    ∀ (rs : List GshhgRecord) (st : ReadState), st.rest = encodeFile rs ++ tail →
      st.eof = false → st.numPolygons ≤ 500000 →
      st.globalLineSegmentIndex = st.numLineSegments →
      -(st.numPolygons : Int) ≤ st.numLineSegments → 2 * pointCount rs ≤ intMax →
      st.numLineSegments + pointCount rs ≤ intMax →
      readLoop overlaps st =
        if tail.length < 11 ∧ st.numPolygons + (keptHeaders overlaps rs).length ≤ 500000 then
          some ⟨[], true, st.numPolygons + (keptHeaders overlaps rs).length,
            st.numLineSegments + segmentCount (keptHeaders overlaps rs),
            st.globalLineSegmentIndex + segmentCount (keptHeaders overlaps rs),
            st.allUsed ++ numberSegments st.globalLineSegmentIndex (keptHeaders overlaps rs)⟩
        else none
  | [], st, hr, he, hn, _, _, _, _ => by
    rw [encodeFile, List.flatMap_nil, List.nil_append] at hr
    have hne : ¬ st.eof = true := by simp [he]
    by_cases h11 : tail.length < 11
    · rw [readLoop_of_readStep hne ((readStep_tail htail hr).trans (if_pos h11)),
        readLoop_of_eof rfl, if_pos ⟨h11, hn⟩]
      simp [keptHeaders, numberSegments, segmentCount]
    · rw [readLoop_of_readStep_none hne ((readStep_tail htail hr).trans (if_neg h11)),
        if_neg fun h => h11 h.1]
  | r :: rs, st, hr, he, hn, hc, hlo, h2, hhi => by
    rw [encodeFile, List.flatMap_cons, List.append_assoc, ← encodeFile] at hr
    rw [pointCount_cons] at h2 hhi
    have hne : ¬ st.eof = true := by simp [he]
    have hnr : r.header.n.toInt = r.pts.length := r.n_eq
    have hmax := intMax_eq
    have hs := @readStep_encode overlaps r _ st he hr (by omega)
    rw [keptHeaders_cons]
    by_cases hk : r.header.kept overlaps = true
    · rw [if_pos hk] at hs ⊢
      by_cases hcap : st.numPolygons < 500000
      · rw [if_pos ⟨hcap, ⟨by omega, by omega⟩, ⟨by omega, by omega⟩⟩] at hs
        have hlo' : -((st.numPolygons + 1 : Nat) : Int) ≤ st.numLineSegments + (r.header.n.toInt - 1) := by
          omega
        have hhi' : st.numLineSegments + (r.header.n.toInt - 1) + pointCount rs ≤ intMax := by
          omega
        rw [readLoop_of_readStep hne hs,
          readLoop_encodeFile htail rs (({ st with rest := _ } : ReadState).keep r.header) rfl he
            hcap (congrArg (· + _) hc) hlo' (by omega) hhi']
        simp only [ReadState.keep_numPolygons, ReadState.keep_numLineSegments,
          ReadState.keep_globalLineSegmentIndex, ReadState.keep_allUsed, List.length_cons,
          segmentCount, numberSegments, List.append_assoc, List.singleton_append, Int.add_assoc,
          Nat.add_assoc, Nat.add_comm 1]
      · rw [if_neg fun h => hcap h.1] at hs
        rw [readLoop_of_readStep_none hne hs, if_neg (by simp only [List.length_cons]; omega)]
    · rw [if_neg hk] at hs ⊢
      rw [readLoop_of_readStep hne hs, readLoop_encodeFile htail rs { st with rest := _ } rfl he hn
        hc hlo (by omega) (by dsimp only; omega)]

end roundTrip

/-- **The reader reads back what the format stores.** On the bytes of any polygons of fewer than
`2 ^ 30` points in all, followed by fewer than 44 stray bytes, `read_land_polygons_bin` returns
exactly the polygons it keeps (land, in no container, overlapping the region), in file order,
with all their points, their line segments numbered consecutively from 0, and their count and
segment count; unless the stray bytes fill an 11-byte item, or more than the 500000 polygons
`all_used` holds are kept, where its result is not determined by the file. The bound on the
points keeps `2 * n` and the counters in `int`.
Source: `read_land_polygons_bin` (gmt_models.c ll. 243–328), `to_little_end` (ll. 233–241)
Kind: P -/
theorem readLandPolygonsBin_encodeFile
    (overlaps : BitVec 32 → BitVec 32 → BitVec 32 → BitVec 32 → Bool) (rs : List GshhgRecord)
    (tail : List UInt8) (htail : tail.length < 44) (hpts : pointCount rs < 2 ^ 30) :
    readLandPolygonsBin overlaps (encodeFile rs ++ tail) =
      if tail.length < 11 ∧ (keptHeaders overlaps rs).length ≤ 500000 then
        some ⟨numberSegments 0 (keptHeaders overlaps rs), (keptHeaders overlaps rs).length,
          segmentCount (keptHeaders overlaps rs)⟩
      else none := by
  have hmax := intMax_eq
  rw [readLandPolygonsBin, readLoop_encodeFile htail rs _ rfl rfl (Nat.zero_le _) rfl
    (by dsimp only; omega) (by omega) (by dsimp only; omega)]
  simp only [Nat.zero_add, Int.zero_add, List.nil_append]
  split_ifs <;> rfl

/-- A land polygon in no container: a triangle, closed by its fourth point. -/
def landTriangle : GshhgRecord :=
  ⟨0, 4, 1, 0, 2, 0, 2, 0, 0, 4294967295#32, 4294967295#32, [(0, 0), (2, 0), (0, 2), (0, 0)],
    by decide⟩

/-- A lake (level 2) inside polygon 0. -/
def lakeInTriangle : GshhgRecord :=
  ⟨1, 2, 2, 0, 1, 0, 1, 0, 0, 0, 4294967295#32, [(0, 0), (1, 1)], by decide⟩

/-- Of the triangle and the lake, with every region overlapping and three stray bytes, the
reader keeps the triangle, numbered 0, with its three segments. -/
theorem readLandPolygonsBin_encodeFile_landAndLake :
    [1, 2, 3].length < 44 ∧ pointCount [landTriangle, lakeInTriangle] < 2 ^ 30 ∧
    readLandPolygonsBin (fun _ _ _ _ => true) (encodeFile [landTriangle, lakeInTriangle] ++ [1, 2, 3]) =
      some ⟨[{ landTriangle.header with globalLineSegmentIndex := 0 }], 1, 3⟩ :=
  ⟨by decide, by decide,
    (readLandPolygonsBin_encodeFile _ _ [1, 2, 3] (by decide) (by decide)).trans (by decide)⟩

/-- The file of the triangle and the lake is read into a well-formed list. -/
theorem readLandPolygonsBin_wellFormed_landAndLake :
    readLandPolygonsBin (fun _ _ _ _ => true) (encodeFile [landTriangle, lakeInTriangle]) =
      some ⟨[{ landTriangle.header with globalLineSegmentIndex := 0 }], 1, 3⟩ ∧
    CoastlinePolygonList.WellFormed (fun _ _ _ _ => true)
      ⟨[{ landTriangle.header with globalLineSegmentIndex := 0 }], 1, 3⟩ :=
  have h : readLandPolygonsBin (fun _ _ _ _ => true) (encodeFile [landTriangle, lakeInTriangle]) =
      some ⟨[{ landTriangle.header with globalLineSegmentIndex := 0 }], 1, 3⟩ := by
    rw [readLandPolygonsBin, readLoop_encodeFile (by decide : ([] : List UInt8).length < 44) _ _
      (List.append_nil _).symm rfl (Nat.zero_le _) rfl (by decide) (by decide) (by decide)]
    decide
  ⟨h, readLandPolygonsBin_wellFormed _ _ _ h⟩

end P4estTnodes.Gmt
