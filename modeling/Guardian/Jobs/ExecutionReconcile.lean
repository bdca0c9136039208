import Guardian.Services.ExecuteProposal

/- The execution reconciler (`jobs/execution_reconcile/mod.rs`): it takes over
   an execution whose worker stopped renewing, and settles it from the chain.
   What the chain has not decided is held for the next pass. -/
namespace Guardian

open Interleaving Service

inductive PassKind where
  | startup
  | steady
  deriving DecidableEq, Repr

inductive Observed where
  | atExpected
  | pending
  | settles (code : ExecutionFailureCode)
  deriving DecidableEq, Repr

namespace Reconciler
variable (cfg : Config)

/-- `resolution`. -/
def resolution (record : ExecutionRecord) (fence : LeaseFence) (failure : ExecutionFailureCode)
    (now : Time) : ExecutionResolution where
  proposalId := record.reservation.proposalId
  attempt := record.reservation.attempt
  fence := fence
  failure := failure
  now := now

/-- `take_ownership`: the lease, with the reservation moved to it. -/
def takeOwnership (holderId : String) (record : ExecutionRecord) :
    Service (Option (LeaseFence × Time)) := do
  match ← lease (.tryAcquire executionLease holderId cfg.executionLeaseTtl) with
  | some (some row) =>
    let fence : LeaseFence := ⟨executionLease, row.holderId, row.fenceToken⟩
    if record.reservation.fence = fence then return some (fence, row.expiresAt)
    match ← fenced fence
        (.claimExecutionReservation record.reservation.fence fence row.expiresAt) with
    | some .claimed => return some (fence, row.expiresAt)
    | _ =>
      releaseQuietly fence
      return none
  | _ => return none

/-- `moved_on`: the account is neither at the base nor at the submitted
state. -/
def movedOn (evidence : SubmissionEvidence) (block : Nat) : Service Observed := do
  let search ← orFail
    (node (.findTransactionEndingAt evidence.expectedCommitment evidence.referenceBlock))
    .networkError
  if search.foundInBlock.isSome then return .atExpected
  if search.resumeFromBlock ≤ block then return .pending
  return .settles .candidateDiscarded

/-- `observe`. -/
def observe (evidence : SubmissionEvidence) : Service Observed := do
  let (verification, block) ←
    orFail (node (.observeCommitment evidence.expectedCommitment)) .networkError
  match verification with
  | .match => return .atExpected
  | .absent => atBase block
  | .mismatch onChain =>
    if eqIgnoreAsciiCase onChain evidence.baseCommitment then atBase block
    else if block < evidence.referenceBlock then return .pending
    else movedOn evidence block
where
  /-- The account is still at the base the transaction spends. -/
  atBase (block : Nat) : Service Observed :=
    if evidence.expirationBlock ≤ block then return .settles .expired else return .pending

/-- `hold`: the reservation stays with this replica until the next pass. -/
def hold (fence : LeaseFence) (expiresAt : Time) : Service Unit := do
  let _ ← fenced fence (.renewExecutionReservation fence expiresAt .reconciling)
  releaseQuietly fence

/-- `renew_after_observing`: the lease's new deadline, or `none` when the
verdict is not to be written. -/
def renewAfterObserving (fence : LeaseFence) : Service (Option Time) := do
  let now ← now
  match ← Renewal.attempt cfg fence .reconciling with
  | .held => return some (now + cfg.executionLeaseTtl)
  | .leaseLost => return none
  | _ =>
    releaseQuietly fence
    return none

/-- The verdict on an execution past its boundary. -/
def settle (record : ExecutionRecord) (fence : LeaseFence) (expiresAt : Time) :
    Observed → Service Unit
  | .atExpected => do
    let now ← now
    match ← fenced fence (.settlePromotedExecution fence now) with
    | some .settled => releaseQuietly fence
    | _ => hold fence expiresAt
  | .pending => hold fence expiresAt
  | .settles code => do
    let now ← now
    match ← fenced fence (.resolveExecution (resolution record fence code now) true) with
    | some .resolved => releaseQuietly fence
    | _ => return ()

/-- `reconcile`. `holderRestarted` is set on the first pass of a replica whose
leases are its own. -/
def reconcile (holderId : String) (kind : PassKind) (holderRestarted : Bool)
    (record : ExecutionRecord) : Service Unit := do
  let now ← now
  if record.reservation.fence.holderId ≠ holderId ∧ holderRestarted = false ∧
      now < record.reservation.leaseExpiresAt then return ()
  match ← takeOwnership cfg holderId record with
  | none => return ()
  | some (fence, expiresAt) =>
    match record.evidence with
    | none =>
      let code := if kind = .startup then .abandoned else .leaseExpired
      let now ← Service.now
      let _ ← fenced fence (.resolveExecution (resolution record fence code now) false)
      releaseQuietly fence
    | some evidence =>
      match ← absorb (observeInTime evidence) with
      | .error _ => hold fence expiresAt
      | .ok observed =>
        match ← renewAfterObserving cfg fence with
        | none => return ()
        | some expiresAt => settle record fence expiresAt observed
where
  /-- The observation, unless it outlasts its budget. -/
  observeInTime (evidence : SubmissionEvidence) : Service Observed := do
    let observed ← observe evidence
    if ← flag then fail .networkError
    return observed

/-- `pass`, for the execution of this account. -/
def pass (holderId : String) (kind : PassKind) (holderRestarted : Bool) : Service Unit := do
  match ← orFail (query .loadActiveExecution) .storageError with
  | none => return ()
  | some record => reconcile cfg holderId kind holderRestarted record

end Reconciler
end Guardian
