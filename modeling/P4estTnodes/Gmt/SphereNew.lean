import Mathlib.Data.Nat.Defs

/-!
# Error propagation of the sphere model's collective read

`p4est_gmt_model_sphere_new` reads the geodesic segments with the collective
`sc_io_read_at_all`, turns a short byte count into `sc_MPI_ERR_OTHER`, and then passes the
read status down a chain of ranks: rank `r > 0` receives `mpiall` from `r - 1`, replaces its
own `mpival` by it when it is an error, and sends `mpival` on to `r + 1`. The last rank then
broadcasts its `mpiall`, every rank returns `NULL` on an error, and otherwise closes the file
collectively and returns `NULL` on a close error of its own.

The chain is deterministic, so a shallow model computes it rank after rank: `chainSent r` is
the value rank `r` sends and `chainRecv r` the `mpiall` it holds after its receive.

* `chainSent_const`, `chainSent_of_first`: the chain carries the status of the lowest failing
  rank among those it has passed, `sc_MPI_SUCCESS` if there is none.
* `sphereNew_early_failure`: a failing read on a rank below the last one makes every rank
  return `NULL` on the error of the lowest failing rank.
* `sphereNew_lastRankReadError`: the last rank broadcasts the value it received, not its own
  status, so a read that fails on the last rank only (every read, for a single process) is
  never acted on and every rank returns a model.
* `sphereNew_of_reads_ok`: the close status is not exchanged: once every read has succeeded,
  each rank returns `NULL` on its own close error and a model otherwise.

The broadcast sends `sizeof (size_t)` integers from the single integer `mpiall` (gmt_models.c
ll. 633–634): on every rank but the last it writes past `mpiall`, and what that does is undefined
in C. The model reads it as the broadcast of that one integer, taking the overrun to change
nothing the function reads afterwards. With two processes or more, `sphereNew_early_failure` and
`sphereNew_of_reads_ok`, and the theorems of `Gmt.SphereFile` built on them, hold under this
reading.
-/

namespace P4estTnodes.Gmt

/-- `sc_MPI_SUCCESS`.
Source: MPI (`MPI_SUCCESS`)
Kind: D -/
def scMpiSuccess : Int := 0

/-- What `sc_io_read_at_all` returns on one rank: its status and the count of bytes read.
Source: `sc_io_read_at_all` (gmt_models.c ll. 606–608)
Kind: D -/
structure ReadOutcome where
  /-- The returned status. -/
  mpival : Int
  /-- The number of bytes read (`ocount`). -/
  ocount : Nat
  deriving DecidableEq, Repr

/-- The status of one rank's read after the count check.
Source: `p4est_gmt_model_sphere_new` (gmt_models.c ll. 611–613)
Kind: D
Fidelity: exact -/
def readStatus (errOther : Int) (localIntBytes : Nat) (o : ReadOutcome) : Int :=
  if o.mpival = scMpiSuccess ∧ o.ocount ≠ localIntBytes then errOther else o.mpival

/-- A rank's `mpival` after it has received `mpiall`: the received error wins.
Source: `p4est_gmt_model_sphere_new` (gmt_models.c ll. 622–624)
Kind: D
Fidelity: exact -/
def propagate (mpiall mpival : Int) : Int := if mpiall ≠ scMpiSuccess then mpiall else mpival

/-- The value rank `r` sends to `r + 1`; rank 0 receives nothing and still holds the
`sc_MPI_SUCCESS` of its earlier read of the point count.
Source: `p4est_gmt_model_sphere_new` (gmt_models.c ll. 615–630)
Kind: D
Fidelity: exact -/
def chainSent (st : Nat → Int) : Nat → Int
  | 0 => propagate scMpiSuccess (st 0)
  | r + 1 => propagate (chainSent st r) (st (r + 1))

/-- The `mpiall` of rank `r` after its receive.
Source: `p4est_gmt_model_sphere_new` (gmt_models.c ll. 615–620)
Kind: D
Fidelity: exact -/
def chainRecv (st : Nat → Int) : Nat → Int
  | 0 => scMpiSuccess
  | r + 1 => chainSent st r

/-- What one rank returns: `NULL` after acting on an error code, or the model.
Source: the return paths of `p4est_gmt_model_sphere_new` (gmt_models.c ll. 636–668)
Kind: D -/
inductive SphereResult
  /-- `NULL`, after reporting the error code. -/
  | null (err : Int)
  /-- The model. -/
  | model
  deriving DecidableEq, Repr

/-- The result on rank `r` of `P` processes, from the per-rank read outcomes and close
statuses; every step before the geodesic read has succeeded.
Source: `p4est_gmt_model_sphere_new` (gmt_models.c ll. 605–668)
Kind: D
Fidelity: exact on the read, the chain and the close; the broadcast is read as that of one
integer, its overrun past `mpiall` being undefined in C -/
def p4estGmtModelSphereNew (P : Nat) (errOther : Int) (localIntBytes : Nat)
    (read : Nat → ReadOutcome) (close : Nat → Int) (r : Nat) : SphereResult :=
  let mpiall := chainRecv (fun q => readStatus errOther localIntBytes (read q)) (P - 1)
  if mpiall ≠ scMpiSuccess then .null mpiall
  else if close r ≠ scMpiSuccess then .null (close r) else .model

/-! ## The chain -/

section chain

variable (st : Nat → Int)

/-- The chain passes on a status that every rank it has passed holds: `sc_MPI_SUCCESS` as long
as every rank it has passed read successfully.
Source: `p4est_gmt_model_sphere_new` (gmt_models.c ll. 615–630)
Kind: L -/
lemma chainSent_const {s : Int} : ∀ r, (∀ j ≤ r, st j = s) → chainSent st r = s
  | 0, h => by simp [chainSent, propagate, h 0 le_rfl]
  | r + 1, h => by
    rw [chainSent, chainSent_const r fun j hj => h j (by omega), h (r + 1) le_rfl, propagate]
    split_ifs <;> rfl

/-- Past the lowest failing rank `i`, the chain carries `i`'s status.
Source: none
Kind: L -/
lemma chainSent_of_first {i : Nat} (hi : st i ≠ scMpiSuccess)
    (hlow : ∀ j < i, st j = scMpiSuccess) : ∀ r, i ≤ r → chainSent st r = st i
  | 0, h => by
    obtain rfl : i = 0 := by omega
    simp [chainSent, propagate]
  | r + 1, h => by
    rcases Nat.eq_or_lt_of_le h with rfl | hlt
    · have hok := chainSent_const st r fun j hj => hlow j (by omega)
      simp [chainSent, propagate, hok]
    · simp [chainSent, propagate, chainSent_of_first hi hlow r (by omega), hi]

end chain

/-! ## What the ranks return -/

/-- **An early read error reaches every rank.** If the lowest failing read is on a rank `i`
below the last one, every rank returns `NULL` on `i`'s status. This reads the final broadcast
as that of the one integer `mpiall`; in C it writes past it on every rank but the last.
Source: `p4est_gmt_model_sphere_new` (gmt_models.c ll. 615–650)
Kind: P -/
theorem sphereNew_early_failure (P : Nat) (errOther : Int) (localIntBytes : Nat)
    (read : Nat → ReadOutcome) (close : Nat → Int) (i : Nat) (hiP : i + 1 < P)
    (hi : readStatus errOther localIntBytes (read i) ≠ scMpiSuccess)
    (hlow : ∀ j < i, readStatus errOther localIntBytes (read j) = scMpiSuccess) (r : Nat) :
    p4estGmtModelSphereNew P errOther localIntBytes read close r =
      .null (readStatus errOther localIntBytes (read i)) := by
  obtain ⟨k, rfl⟩ : ∃ k, P = k + 2 := ⟨P - 2, by omega⟩
  have h := chainSent_of_first (fun q => readStatus errOther localIntBytes (read q)) hi hlow k
    (by omega)
  dsimp only at h
  simp [p4estGmtModelSphereNew, chainRecv, h, hi]

/-- Rank 0 of three fails with a short count and rank 1 with an error code: both ranks act on
rank 0's `sc_MPI_ERR_OTHER`. -/
theorem sphereNew_early_failure_shortCount :
    0 + 1 < 3 ∧ readStatus 15 8 ⟨0, 4⟩ ≠ scMpiSuccess ∧
    (∀ j < 0, readStatus 15 8 ((fun q => if q = 0 then ⟨0, 4⟩ else ⟨7, 8⟩) j) = scMpiSuccess) ∧
    p4estGmtModelSphereNew 3 15 8 (fun q => if q = 0 then ⟨0, 4⟩ else ⟨7, 8⟩) (fun _ => 0) 2 =
      .null (readStatus 15 8 ((fun q => if q = 0 then ⟨0, 4⟩ else ⟨7, 8⟩) 0)) :=
  ⟨by omega, by decide, fun _ h => absurd h (Nat.not_lt_zero _),
    sphereNew_early_failure 3 15 8 _ _ 0 (by omega) (by decide)
      (fun _ h => absurd h (Nat.not_lt_zero _)) 2⟩

/-- **When every read succeeds, each rank returns on its own close.** The close status is not
exchanged: a rank returns `NULL` on its own close error, and a model otherwise, whatever the
other ranks' closes return. With two processes or more, this reads the final broadcast as that
of the one integer `mpiall`; in C it writes past it on every rank but the last.
Source: `p4est_gmt_model_sphere_new` (gmt_models.c ll. 652–668)
Kind: P -/
theorem sphereNew_of_reads_ok (P : Nat) (errOther : Int) (localIntBytes : Nat)
    (read : Nat → ReadOutcome) (close : Nat → Int)
    (hread : ∀ q, readStatus errOther localIntBytes (read q) = scMpiSuccess) (r : Nat) :
    p4estGmtModelSphereNew P errOther localIntBytes read close r =
      if close r = scMpiSuccess then .model else .null (close r) := by
  have h : ∀ k, chainRecv (fun q => readStatus errOther localIntBytes (read q)) k =
      scMpiSuccess := fun
    | 0 => rfl
    | k + 1 => chainSent_const _ k fun j _ => hread j
  by_cases hc : close r = scMpiSuccess <;> simp [p4estGmtModelSphereNew, h, hc]

/-- Two ranks read their 8 bytes; rank 1's close fails with code 9: rank 1 returns `NULL`
while rank 0 returns a model. -/
theorem sphereNew_of_reads_ok_closeFails :
    (∀ q, readStatus 15 8 ((fun _ => ⟨0, 8⟩ : Nat → ReadOutcome) q) = scMpiSuccess) ∧
    p4estGmtModelSphereNew 2 15 8 (fun _ => ⟨0, 8⟩) (fun q => if q = 1 then 9 else 0) 1 =
      .null 9 ∧
    p4estGmtModelSphereNew 2 15 8 (fun _ => ⟨0, 8⟩) (fun q => if q = 1 then 9 else 0) 0 =
      .model := by
  have hread : ∀ q, readStatus 15 8 ((fun _ => ⟨0, 8⟩ : Nat → ReadOutcome) q) = scMpiSuccess :=
    fun _ => by simp [readStatus, scMpiSuccess]
  refine ⟨hread, ?_, ?_⟩
  · rw [sphereNew_of_reads_ok 2 15 8 _ _ hread 1]; decide
  · rw [sphereNew_of_reads_ok 2 15 8 _ _ hread 0]; decide

/-- **The last rank's read error is dropped.** Of two ranks, rank 1 (the last) reads 4 of its
8 bytes: its status is `sc_MPI_ERR_OTHER`, but it broadcasts the `sc_MPI_SUCCESS` it received
from rank 0, and both ranks return a model. -/
theorem sphereNew_lastRankReadError :
    readStatus 15 8 ⟨0, 4⟩ ≠ scMpiSuccess ∧
    ∀ r < 2, p4estGmtModelSphereNew 2 15 8 (fun q => if q = 0 then ⟨0, 8⟩ else ⟨0, 4⟩)
      (fun _ => 0) r = .model := by
  decide

end P4estTnodes.Gmt
