import Mathlib.Algebra.Group.Int
import Mathlib.Data.List.Basic
import P4estTnodes.Gmt.LandPolygons
import P4estTnodes.Gmt.SphereNew

/-!
# The sphere model's input file

`p4est_gmt_model_sphere_new` reads a file of precomputed geodesic segments: a `size_t` count of
segments, then the segments, `sizeof (p4est_gmt_sphere_geoseg_t) = 40` bytes each (two
`p4est_topidx_t` and four doubles). Rank 0 reads the count and broadcasts first its read status,
then the count; every rank checks that the segments fit in an `int` of bytes, reads them all
with the collective `sc_io_read_at_all` at offset `sizeof (size_t)`, and passes its read status
down the chain of ranks that `Gmt.SphereNew` models. This module models the whole function over
the file's bytes and the status of each call to the I/O layer.

* `p4estGmtModelSphereNewFull` is the function on one rank. It is `none` on a rank that never
  returns: when the collective open fails on some ranks only, the others wait in the chain's
  receive or in the final broadcast for a rank that has left.
* `sphereNewFull_of_file`: when every call to the I/O layer succeeds, the file alone decides
  each rank's result, and all ranks return the same. A file too short for the count, a count
  whose byte size passes `INT_MAX`, a file cut inside the segments, or a model of the segments.
  With one process, a file cut inside the segments is accepted: its last rank's read error is
  dropped (`sphereNew_lastRankReadError`), and the model holds only the bytes the file has.
* `sphereNewFull_encode`: a file of a count `n` and its segments reads back as a model of `n`
  segments. The size check multiplies in `size_t`, so it tests `n * 40 mod 2 ^ 64`: a count of
  `2 ^ 61` passes it and gives a model of `2 ^ 61` segments and no segment bytes.
* `sphereNewFull_agree`: whatever the file and the I/O layer return, two ranks whose open and
  close succeed take the same path: the same `NULL`, or models of the same count, resolution and
  prefix. Their segment bytes agree when both segment reads succeed.

The I/O layer is modelled by what the code reads of it: each call's status, and the bytes a
read returns, which are those of the file from the offset on, at most the count asked. Where a
read falls short and the code goes on, the model's segment bytes are those the read returned;
the rest of the buffer is not determined by the code. Where a rank's read fails and the code
goes on, the buffer is not determined at all: the model takes it as a parameter per rank,
`IoStatus.geoBuffer`, and every theorem holds for each choice of it. As in `Gmt.SphereNew`, the
final broadcast of `sizeof (size_t)` integers into the single integer `mpiall` is read as the
broadcast of that integer. The host is little-endian, as for the land polygon reader. The
logged messages and the model's constant fields (the cubed connectivity, the `sphere2d` geometry
and the function pointers) are left out.
-/

namespace P4estTnodes.Gmt

/-- `sizeof (size_t)`.
Source: gmt_models.c ll. 522–523, 607
Kind: D -/
def sizeofSizeT : Nat := 8

/-- `sizeof (p4est_gmt_sphere_geoseg_t)`: `which_tree`, `pad4` and four doubles.
Source: `p4est_gmt_sphere_geoseg_t` (gmt_models.h ll. 85–91)
Kind: D -/
def sizeofGeoseg : Nat := 40

/-- The value of an unsigned integer from its bytes in memory, on a little-endian host: byte `i`
has weight `256 ^ i`. Bytes past the list are zero, as in `global_num_points = 0` when a read
falls short.
Source: the read of `global_num_points` (gmt_models.c ll. 467, 522–523)
Kind: D -/
def memSizeT : List UInt8 → Nat
  | [] => 0
  | b :: bs => b.toNat + 256 * memSizeT bs

/-- The `w` bytes of `k` in memory on a little-endian host, as `fwrite` stores them.
Source: the count the reads of gmt_models.c ll. 522 and 607 expect
Kind: D -/
def encodeSizeT : Nat → Nat → List UInt8
  | 0, _ => []
  | w + 1, k => UInt8.ofNat (k % 256) :: encodeSizeT w (k / 256)

/-- What `sc_io_read_at` and `sc_io_read_at_all` put in the buffer: the bytes of the file from
`offset` on, at most `count` of them; `ocount` is their number.
Source: `sc_io_read_at`, `sc_io_read_at_all` (gmt_models.c ll. 522–523, 607–609)
Kind: D
Fidelity: the statuses are `IoStatus` -/
def ioReadAt (file : List UInt8) (offset count : Nat) : List UInt8 :=
  (file.drop offset).take count

/-- What the code reads of the I/O layer, per rank: the status each call returns, and what a
failed segment read leaves in the buffer.
Source: `sc_io_open`, `sc_io_read_at`, `sc_io_read_at_all`, `sc_io_close` (gmt_models.c
ll. 506, 522, 607, 654)
Kind: D -/
structure IoStatus where
  /-- `sc_io_open` on rank `r`. -/
  openStatus : Nat → Int
  /-- `sc_io_read_at` of the count, on rank 0. -/
  countRead : Int
  /-- `sc_io_read_at_all` of the segments on rank `r`. -/
  geoRead : Nat → Int
  /-- What `sdata->geodesics` holds on rank `r` after its `sc_io_read_at_all` has failed: the
  buffer is allocated uninitialised and the code does not determine what a failed read leaves
  in it. -/
  geoBuffer : Nat → List UInt8
  /-- `sc_io_close` on rank `r`. -/
  close : Nat → Int

/-- Every call to the I/O layer succeeds on the ranks below `P`.
Source: none
Kind: D -/
structure IoStatus.Succeeds (io : IoStatus) (P : Nat) : Prop where
  countRead : io.countRead = scMpiSuccess
  openStatus : ∀ q < P, io.openStatus q = scMpiSuccess
  geoRead : ∀ q < P, io.geoRead q = scMpiSuccess
  close : ∀ q < P, io.close q = scMpiSuccess

/-- The fields of the returned model that depend on the input.
Source: `p4est_gmt_model_t`, `p4est_gmt_model_sphere_t` (gmt_models.c ll. 330–335,
576–604)
Kind: D -/
structure SphereModel where
  /-- `model->M`, which is also `sdata->num_geodesics`. -/
  M : Nat
  /-- `sdata->resolution`. -/
  resolution : Int
  /-- `model->output_prefix`. -/
  outputPrefix : String
  /-- The bytes read into `sdata->geodesics`. -/
  geodesics : List UInt8
  deriving DecidableEq, Repr

/-- Why a rank returns `NULL`.
Source: the return paths of `p4est_gmt_model_sphere_new` (gmt_models.c ll. 498–665)
Kind: D -/
inductive SphereNewError
  /-- `input == NULL`. -/
  | noInput
  /-- `sc_io_open` failed with this code. -/
  | openFailed (err : Int)
  /-- The count read failed, or was short, on rank 0. -/
  | countRead (err : Int)
  /-- The segments' byte count passes `INT_MAX`. -/
  | tooBig (globalNumPoints : Nat)
  /-- The segment read or the close, as `p4estGmtModelSphereNew` returns it. -/
  | geodesics (err : Int)
  deriving DecidableEq, Repr

/-- What one rank returns.
Source: `p4est_gmt_model_sphere_new` (gmt_models.c ll. 460–669)
Kind: D -/
inductive SphereNewResult
  /-- `NULL`. -/
  | error (e : SphereNewError)
  /-- The model. -/
  | model (m : SphereModel)
  deriving DecidableEq, Repr

/-- The function on rank `r` after every rank has opened the file. The count's status and
value are rank 0's, broadcast; the rest is the chain of `p4estGmtModelSphereNew`. A rank whose
segment read fails returns a model only when its error is dropped, as the last rank's is; its
segment bytes are then `io.geoBuffer r`.
Source: `p4est_gmt_model_sphere_new` (gmt_models.c ll. 520–668)
Kind: D
Fidelity: exact on the counts; `(int)` of a product at most `INT_MAX` is the product -/
def sphereNewAfterOpen (P : Nat) (errOther : Int) (io : IoStatus) (resolution : Int)
    (file : List UInt8) (outputPrefix : Option String) (r : Nat) : SphereNewResult :=
  let mpiall := readStatus errOther sizeofSizeT ⟨io.countRead, (ioReadAt file 0 sizeofSizeT).length⟩
  if mpiall ≠ scMpiSuccess then .error (.countRead mpiall) else
  let globalNumPoints := memSizeT (ioReadAt file 0 sizeofSizeT)
  let localIntBytes := globalNumPoints * sizeofGeoseg % 2 ^ 64
  if intMax < localIntBytes then .error (.tooBig globalNumPoints) else
  let geodesics := ioReadAt file sizeofSizeT localIntBytes
  match p4estGmtModelSphereNew P errOther localIntBytes
      (fun q => ⟨io.geoRead q, geodesics.length⟩) io.close r with
  | .null e => .error (.geodesics e)
  | .model => .model ⟨globalNumPoints, resolution, outputPrefix.getD "sphere",
      if io.geoRead r = scMpiSuccess then geodesics else io.geoBuffer r⟩

/-- `p4est_gmt_model_sphere_new` on rank `r` of `P`, for the file `input` (`none` for a `NULL`
name); `none` if the rank never returns. That is the case of a rank whose open succeeds when
another's fails: the failing ranks return at once, so the lowest of them never sends in the
chain, every rank above it waits in its receive, and every rank below waits in the broadcast
from the last rank.
Source: `p4est_gmt_model_sphere_new` (gmt_models.c ll. 460–669)
Kind: D
Fidelity: exact on the return paths -/
def p4estGmtModelSphereNewFull (P : Nat) (errOther : Int) (io : IoStatus) (resolution : Int)
    (input : Option (List UInt8)) (outputPrefix : Option String) (r : Nat) :
    Option SphereNewResult :=
  match input with
  | none => some (.error .noInput)
  | some file =>
    if io.openStatus r ≠ scMpiSuccess then some (.error (.openFailed (io.openStatus r)))
    else if ∃ q < P, io.openStatus q ≠ scMpiSuccess then none
    else some (sphereNewAfterOpen P errOther io resolution file outputPrefix r)

/-! ## The count -/

@[simp] lemma length_encodeSizeT : ∀ w k, (encodeSizeT w k).length = w
  | 0, _ => rfl
  | w + 1, k => by rw [encodeSizeT, List.length_cons, length_encodeSizeT w]

/-- The count reads back modulo `256 ^ w`.
Source: none
Kind: L -/
lemma memSizeT_encodeSizeT : ∀ w k, memSizeT (encodeSizeT w k) = k % 256 ^ w
  | 0, k => (Nat.mod_one k).symm
  | w + 1, k => by
    rw [encodeSizeT, memSizeT, memSizeT_encodeSizeT w, Nat.pow_succ', Nat.mod_mul,
      UInt8.toNat_ofNat_of_lt (Nat.mod_lt _ (by decide))]

@[simp] lemma length_ioReadAt (file : List UInt8) (offset count : Nat) :
    (ioReadAt file offset count).length = min count (file.length - offset) := by
  simp [ioReadAt]

/-! ## The segment read with one count on every rank -/

section chain

variable {P : Nat} {errOther : Int} {bytes c : Nat} {read : Nat → ReadOutcome} {close : Nat → Int}
  {r : Nat}

/-- With one status on every rank, the last rank holds it after its receive, unless it is rank 0.
Source: `p4est_gmt_model_sphere_new` (gmt_models.c ll. 615–630)
Kind: L -/
lemma chainRecv_const {st : Nat → Int} {s : Int} (h : ∀ q < P, st q = s) :
    chainRecv st (P - 1) = if 1 < P then s else scMpiSuccess := by
  match P, h with
  | 0, _ | 1, _ => rfl
  | k + 2, h => rw [if_pos (by omega)]; exact chainSent_const _ k fun j hj => h j (by omega)

/-- When every rank's read succeeds with the same count `c`, the ranks return a model exactly
when `c` is the expected count or there is one process, and otherwise act on the short count.
Source: `p4est_gmt_model_sphere_new` (gmt_models.c ll. 611–665)
Kind: L -/
lemma p4estGmtModelSphereNew_of_count (hother : errOther ≠ scMpiSuccess)
    (hread : ∀ q < P, read q = ⟨scMpiSuccess, c⟩) (hc : close r = scMpiSuccess) :
    p4estGmtModelSphereNew P errOther bytes read close r =
      if 1 < P ∧ c ≠ bytes then .null errOther else .model := by
  have hst : ∀ q < P, readStatus errOther bytes (read q) =
      if c = bytes then scMpiSuccess else errOther := fun q hq => by
    simp only [hread q hq, readStatus, true_and, ne_eq, ite_not]
  unfold p4estGmtModelSphereNew
  rw [chainRecv_const hst]
  by_cases hP : 1 < P <;> by_cases hcb : c = bytes <;> simp [hP, hcb, hc, hother]

end chain

/-! ## The file decides the result -/

section file

variable {P : Nat} {errOther : Int} {io : IoStatus} {resolution : Int} {file : List UInt8}
  {outputPrefix : Option String} {r : Nat}

lemma readStatus_count (hio : io.countRead = scMpiSuccess) :
    readStatus errOther sizeofSizeT ⟨io.countRead, (ioReadAt file 0 sizeofSizeT).length⟩ =
      if file.length < sizeofSizeT then errOther else scMpiSuccess := by
  simp only [readStatus, hio, length_ioReadAt, Nat.sub_zero, true_and]
  split_ifs <;> first | rfl | omega

lemma sphereNewAfterOpen_of_file (hother : errOther ≠ scMpiSuccess) (hio : io.Succeeds P)
    (hr : r < P) :
    sphereNewAfterOpen P errOther io resolution file outputPrefix r =
      let n := memSizeT (file.take sizeofSizeT)
      let bytes := n * sizeofGeoseg % 2 ^ 64
      if file.length < sizeofSizeT then .error (.countRead errOther)
      else if intMax < bytes then .error (.tooBig n)
      else if 1 < P ∧ file.length < sizeofSizeT + bytes then .error (.geodesics errOther)
      else .model ⟨n, resolution, outputPrefix.getD "sphere", (file.drop sizeofSizeT).take bytes⟩ := by
  unfold sphereNewAfterOpen
  simp only [readStatus_count hio.countRead]
  by_cases h8 : file.length < sizeofSizeT
  · simp only [if_pos h8, ne_eq, hother, not_false_eq_true, ↓reduceIte]
  simp only [if_neg h8, ne_eq, not_true_eq_false, if_false, ioReadAt, List.drop_zero]
  rw [p4estGmtModelSphereNew_of_count hother (fun q hq => by rw [hio.geoRead q hq])
    (hio.close r hr)]
  have hlen : ((List.drop sizeofSizeT file).take
      (memSizeT (file.take sizeofSizeT) * sizeofGeoseg % 2 ^ 64)).length ≠
      memSizeT (file.take sizeofSizeT) * sizeofGeoseg % 2 ^ 64 ↔
      file.length < sizeofSizeT + memSizeT (file.take sizeofSizeT) * sizeofGeoseg % 2 ^ 64 := by
    simp only [List.length_take, List.length_drop]; omega
  simp only [hlen, hio.geoRead r hr, if_true]
  split_ifs <;> rfl

/-- **With every call to the I/O layer succeeding, the file decides the result.** On every rank:
`NULL` if the file is too short to hold the count; `NULL` if the count's byte size, computed in
`size_t`, passes `INT_MAX`; `NULL` if there are several processes and the file is cut inside
the segments; otherwise the model of that count, with the bytes of the segments that the file
holds, all of them unless a one-process run met a cut file. With two processes or more, this
reads the final broadcast as that of the one integer `mpiall`, as `Gmt.SphereNew` says.
Source: `p4est_gmt_model_sphere_new` (gmt_models.c ll. 460–669)
Kind: P -/
theorem sphereNewFull_of_file (P : Nat) (errOther : Int) (io : IoStatus) (resolution : Int)
    (file : List UInt8) (outputPrefix : Option String) (hother : errOther ≠ scMpiSuccess)
    (hio : io.Succeeds P) (r : Nat) (hr : r < P) :
    p4estGmtModelSphereNewFull P errOther io resolution (some file) outputPrefix r =
      let n := memSizeT (file.take sizeofSizeT)
      let bytes := n * sizeofGeoseg % 2 ^ 64
      some (if file.length < sizeofSizeT then .error (.countRead errOther)
      else if intMax < bytes then .error (.tooBig n)
      else if 1 < P ∧ file.length < sizeofSizeT + bytes then .error (.geodesics errOther)
      else .model ⟨n, resolution, outputPrefix.getD "sphere", (file.drop sizeofSizeT).take bytes⟩) := by
  rw [p4estGmtModelSphereNewFull, if_neg (not_not.mpr (hio.openStatus r hr)),
    if_neg fun ⟨q, hq, h⟩ => h (hio.openStatus q hq), sphereNewAfterOpen_of_file hother hio hr]

/-- One process, and a file whose count asks for one segment but holds 4 of its 40 bytes: the
rank returns a model of one segment with those 4 bytes. -/
theorem sphereNewFull_of_file_cutOneRank :
    (15 : Int) ≠ scMpiSuccess ∧ IoStatus.Succeeds ⟨fun _ => 0, 0, fun _ => 0, fun _ => [], fun _ => 0⟩ 1 ∧
    p4estGmtModelSphereNewFull 1 15 ⟨fun _ => 0, 0, fun _ => 0, fun _ => [], fun _ => 0⟩ 3
      (some (encodeSizeT 8 1 ++ [1, 2, 3, 4])) none 0 =
      some (.model ⟨1, 3, "sphere", [1, 2, 3, 4]⟩) :=
  have hio : IoStatus.Succeeds ⟨fun _ => 0, 0, fun _ => 0, fun _ => [], fun _ => 0⟩ 1 :=
    ⟨rfl, fun _ _ => rfl, fun _ _ => rfl, fun _ _ => rfl⟩
  ⟨by decide, hio, (sphereNewFull_of_file 1 15 _ 3 _ none (by decide) hio 0 (by decide)).trans
    (by decide)⟩

/-- **The file format, read back.** With every call to the I/O layer succeeding, a file that holds
a count `n` and then the bytes of its segments, followed by anything, gives on every rank the
model of `n` segments with those bytes, or `NULL` when their byte count passes `INT_MAX`. The
byte count is `n * 40` modulo `2 ^ 64`, as the code computes it in `size_t`. With two processes
or more, this reads the final broadcast as that of the one integer `mpiall`, as `Gmt.SphereNew`
says.
Source: `p4est_gmt_model_sphere_new` (gmt_models.c ll. 460–669)
Kind: P -/
theorem sphereNewFull_encode (P : Nat) (errOther : Int) (io : IoStatus) (resolution : Int)
    (outputPrefix : Option String) (hother : errOther ≠ scMpiSuccess) (hio : io.Succeeds P)
    (n : Nat) (hn : n < 2 ^ 64) (body tail : List UInt8)
    (hbody : body.length = n * sizeofGeoseg % 2 ^ 64) (r : Nat) (hr : r < P) :
    p4estGmtModelSphereNewFull P errOther io resolution
        (some (encodeSizeT sizeofSizeT n ++ body ++ tail)) outputPrefix r =
      some (if intMax < n * sizeofGeoseg % 2 ^ 64 then .error (.tooBig n)
        else .model ⟨n, resolution, outputPrefix.getD "sphere", body⟩) := by
  have hcount : memSizeT ((encodeSizeT sizeofSizeT n ++ body ++ tail).take sizeofSizeT) = n := by
    rw [List.append_assoc, List.take_left' (length_encodeSizeT _ _), memSizeT_encodeSizeT,
      Nat.mod_eq_of_lt (by exact hn)]
  have hbody' : ((encodeSizeT sizeofSizeT n ++ body ++ tail).drop sizeofSizeT).take
      (n * sizeofGeoseg % 2 ^ 64) = body := by
    rw [List.append_assoc, List.drop_left' (length_encodeSizeT _ _), List.take_left' hbody]
  have hlen : (encodeSizeT sizeofSizeT n ++ body ++ tail).length =
      sizeofSizeT + n * sizeofGeoseg % 2 ^ 64 + tail.length := by
    simp only [List.length_append, length_encodeSizeT, hbody]
  rw [sphereNewFull_of_file P errOther io resolution _ outputPrefix hother hio r hr]
  simp only [hcount, hbody', hlen]
  split_ifs <;> first | rfl | omega

/-- Two processes and a file holding the count `2 ^ 61` and nothing else: `2 ^ 61 * 40` is
`0` modulo `2 ^ 64`, so the size check passes, and every rank returns a model of `2 ^ 61`
segments without segment bytes. -/
theorem sphereNewFull_encode_wrappedCount :
    (15 : Int) ≠ scMpiSuccess ∧ IoStatus.Succeeds ⟨fun _ => 0, 0, fun _ => 0, fun _ => [], fun _ => 0⟩ 2 ∧
    ∀ r < 2, p4estGmtModelSphereNewFull 2 15 ⟨fun _ => 0, 0, fun _ => 0, fun _ => [], fun _ => 0⟩ 3
      (some (encodeSizeT sizeofSizeT (2 ^ 61) ++ [] ++ [])) none r =
      some (.model ⟨2 ^ 61, 3, "sphere", []⟩) :=
  have hio : IoStatus.Succeeds ⟨fun _ => 0, 0, fun _ => 0, fun _ => [], fun _ => 0⟩ 2 :=
    ⟨rfl, fun _ _ => rfl, fun _ _ => rfl, fun _ _ => rfl⟩
  ⟨by decide, hio, fun r hr => (sphereNewFull_encode 2 15 _ 3 none (by decide) hio (2 ^ 61)
    (by decide) [] [] (by decide) r hr).trans (by decide)⟩

/-! ## The ranks agree -/

/-- The result with the segment bytes left out: what the code determines of it on every rank.
Source: none
Kind: D -/
def SphereNewResult.withoutGeodesics : SphereNewResult → SphereNewResult
  | .error e => .error e
  | .model m => .model { m with geodesics := [] }

/-- Past the opens, two ranks whose close succeeds take the same path, and read the same bytes
when both segment reads succeed.
Source: `p4est_gmt_model_sphere_new` (gmt_models.c ll. 520–668)
Kind: L -/
lemma sphereNewAfterOpen_agree {r' : Nat} (hcr : io.close r = scMpiSuccess)
    (hcr' : io.close r' = scMpiSuccess) :
    (sphereNewAfterOpen P errOther io resolution file outputPrefix r).withoutGeodesics =
      (sphereNewAfterOpen P errOther io resolution file outputPrefix r').withoutGeodesics ∧
    (io.geoRead r = scMpiSuccess → io.geoRead r' = scMpiSuccess →
      sphereNewAfterOpen P errOther io resolution file outputPrefix r =
        sphereNewAfterOpen P errOther io resolution file outputPrefix r') := by
  have htail : ∀ bytes read, p4estGmtModelSphereNew P errOther bytes read io.close r =
      p4estGmtModelSphereNew P errOther bytes read io.close r' := fun _ _ => by
    simp only [p4estGmtModelSphereNew, hcr, hcr']
  unfold sphereNewAfterOpen
  simp only [htail]
  refine ⟨?_, fun hg hg' => by rw [if_pos hg, if_pos hg']⟩
  split_ifs <;> first | rfl | split <;> rfl

/-- **The ranks take the same path.** Whatever the file and the I/O layer return, two ranks whose
open and close succeed return the same result up to the segment bytes: the same `NULL` on the
same error, or models of the same count, resolution and prefix. Every value the path depends on
is rank 0's broadcast, or the last rank's. When both ranks' segment reads succeed, their segment
bytes are the same too; a rank whose read fails and whose error is dropped, as the last rank's is,
returns whatever its buffer holds, which the code does not determine.
Source: `p4est_gmt_model_sphere_new` (gmt_models.c ll. 520–668)
Kind: P -/
theorem sphereNewFull_agree (P : Nat) (errOther : Int) (io : IoStatus) (resolution : Int)
    (input : Option (List UInt8)) (outputPrefix : Option String) (r r' : Nat)
    (hor : io.openStatus r = scMpiSuccess) (hor' : io.openStatus r' = scMpiSuccess)
    (hcr : io.close r = scMpiSuccess) (hcr' : io.close r' = scMpiSuccess) :
    (p4estGmtModelSphereNewFull P errOther io resolution input outputPrefix r).map
        SphereNewResult.withoutGeodesics =
      (p4estGmtModelSphereNewFull P errOther io resolution input outputPrefix r').map
        SphereNewResult.withoutGeodesics ∧
    (io.geoRead r = scMpiSuccess → io.geoRead r' = scMpiSuccess →
      p4estGmtModelSphereNewFull P errOther io resolution input outputPrefix r =
        p4estGmtModelSphereNewFull P errOther io resolution input outputPrefix r') := by
  cases input with
  | none => exact ⟨rfl, fun _ _ => rfl⟩
  | some file =>
    simp only [p4estGmtModelSphereNewFull, hor, hor', ne_eq, not_true_eq_false, if_false]
    split_ifs
    · exact ⟨rfl, fun _ _ => rfl⟩
    · obtain ⟨hpath, hbytes⟩ :=
        @sphereNewAfterOpen_agree P errOther io resolution file outputPrefix r r' hcr hcr'
      exact ⟨congrArg some hpath, fun hg hg' => congrArg some (hbytes hg hg')⟩

/-- Two processes and a file of one segment; the segment read fails on rank 1, the last rank,
and its error is dropped. Both ranks return a model of one segment, but rank 0 holds the
segment's bytes and rank 1 what its buffer holds, here nothing. -/
theorem sphereNewFull_agree_lastReadFails :
    (fun _ => 0 : Nat → Int) 0 = scMpiSuccess ∧ (fun _ => 0 : Nat → Int) 1 = scMpiSuccess ∧
    ((p4estGmtModelSphereNewFull 2 15
        ⟨fun _ => 0, 0, fun q => if q = 1 then 5 else 0, fun _ => [], fun _ => 0⟩ 3
        (some (encodeSizeT 8 1 ++ List.replicate 40 1)) none 0).map
          SphereNewResult.withoutGeodesics =
      (p4estGmtModelSphereNewFull 2 15
        ⟨fun _ => 0, 0, fun q => if q = 1 then 5 else 0, fun _ => [], fun _ => 0⟩ 3
        (some (encodeSizeT 8 1 ++ List.replicate 40 1)) none 1).map
          SphereNewResult.withoutGeodesics ∧
    ((fun q => if q = 1 then 5 else 0 : Nat → Int) 0 = scMpiSuccess →
      (fun q => if q = 1 then 5 else 0 : Nat → Int) 1 = scMpiSuccess →
      p4estGmtModelSphereNewFull 2 15
        ⟨fun _ => 0, 0, fun q => if q = 1 then 5 else 0, fun _ => [], fun _ => 0⟩ 3
        (some (encodeSizeT 8 1 ++ List.replicate 40 1)) none 0 =
      p4estGmtModelSphereNewFull 2 15
        ⟨fun _ => 0, 0, fun q => if q = 1 then 5 else 0, fun _ => [], fun _ => 0⟩ 3
        (some (encodeSizeT 8 1 ++ List.replicate 40 1)) none 1)) ∧
    p4estGmtModelSphereNewFull 2 15
        ⟨fun _ => 0, 0, fun q => if q = 1 then 5 else 0, fun _ => [], fun _ => 0⟩ 3
        (some (encodeSizeT 8 1 ++ List.replicate 40 1)) none 0 ≠
      p4estGmtModelSphereNewFull 2 15
        ⟨fun _ => 0, 0, fun q => if q = 1 then 5 else 0, fun _ => [], fun _ => 0⟩ 3
        (some (encodeSizeT 8 1 ++ List.replicate 40 1)) none 1 :=
  ⟨rfl, rfl, sphereNewFull_agree 2 15 _ 3 _ none 0 1 rfl rfl rfl rfl, by decide⟩

end file

end P4estTnodes.Gmt
