import Mathlib

/- What block watch shares between replicas (`coordination/block_watch_store.rs`,
   `coordination/postgres/block_watch_store.rs`): the cursor, the observations,
   and the walks of the fleet that it asked for and the release sweep completed.
   On Postgres every write but an observation is fenced; the in-memory store
   belongs to one process and has no lease to check. -/
namespace Guardian.BlockWatch

inductive Backend where
  | postgres
  | inMemory
  deriving DecidableEq, Repr

/-- The largest `i64`. -/
def i64Max : Nat := 2 ^ 63 - 1

/-! ## Walks -/

/-- Requests raise `requestedSeq`; a completed walk raises `completedSeq` to the
sequence it started under. -/
structure WalkRequests where
  requestedSeq : Nat
  completedSeq : Nat
  deriving DecidableEq, Repr

/-- A request came after the last completed walk started. -/
def WalkRequests.owed (walks : WalkRequests) : Bool :=
  decide (walks.completedSeq < walks.requestedSeq)

/-- Outcome of a fenced write that is not a cursor move. -/
inductive FencedWrite where
  | written
  | staleLease
  deriving DecidableEq, Repr

/-- `INSERT .. ON CONFLICT DO UPDATE SET requested_seq = requested_seq + 1`; the
statement fails when the column is at its largest value. -/
def Postgres.requestWalk : Option WalkRequests → Option WalkRequests
  | none => some ⟨1, 0⟩
  | some walks =>
    if walks.requestedSeq < i64Max then
      some { walks with requestedSeq := walks.requestedSeq + 1 }
    else none

/-- `entry(..).or_insert(..)`, then `saturating_add`. -/
def InMemory.requestWalk (walks : Option WalkRequests) : WalkRequests :=
  let walk := walks.getD ⟨0, 0⟩
  { walk with requestedSeq := min (walk.requestedSeq + 1) i64Max }

def requestWalk : Backend → Option WalkRequests → Option WalkRequests
  | .postgres, walks => Postgres.requestWalk walks
  | .inMemory, walks => some (InMemory.requestWalk walks)

/-- Every request up to `startedUnder` is covered; without a row nothing is
written. -/
def completeWalk (startedUnder : Nat) (walks : Option WalkRequests) : Option WalkRequests :=
  walks.map (fun walks => { walks with completedSeq := max walks.completedSeq startedUnder })

/-- The sequence of the last request. -/
def requestedSeq (walks : Option WalkRequests) : Nat := walks.elim 0 (·.requestedSeq)

def completedSeq (walks : Option WalkRequests) : Nat := walks.elim 0 (·.completedSeq)

/-- Requests never go back, and complete nothing. -/
theorem requestWalk_spec {backend : Backend} {walks : Option WalkRequests} {walks' : WalkRequests}
    (h : requestWalk backend walks = some walks') (hmax : requestedSeq walks ≤ i64Max) :
    requestedSeq walks ≤ walks'.requestedSeq ∧ walks'.requestedSeq ≤ i64Max ∧
      walks'.completedSeq = completedSeq walks := by
  cases backend with
  | postgres =>
    cases walks with
    | none => cases h; decide
    | some walks =>
      simp only [requestWalk, Postgres.requestWalk] at h
      split at h
      · next hlt => cases h; exact ⟨Nat.le_succ _, hlt, rfl⟩
      · cases h
  | inMemory =>
    cases h
    cases walks with
    | none => decide
    | some walks =>
      refine ⟨?_, Nat.min_le_right _ _, rfl⟩
      exact le_min (Nat.le_succ _) hmax

@[simp] theorem requestedSeq_completeWalk (startedUnder : Nat) (walks : Option WalkRequests) :
    requestedSeq (completeWalk startedUnder walks) = requestedSeq walks := by
  cases walks <;> rfl

theorem completedSeq_completeWalk (startedUnder : Nat) (walks : Option WalkRequests) :
    completedSeq (completeWalk startedUnder walks) ≤ max (completedSeq walks) startedUnder := by
  cases walks with
  | none => exact Nat.zero_le _
  | some walks => exact Nat.le_refl _

end Guardian.BlockWatch
