import Guardian.Service

/- Guardian executions (`services/execute_proposal/service.rs`, `worker.rs`): a
   request reserves the account, and a worker takes the proposal's transaction
   to the no-retry boundary, records the candidate and its evidence there, and
   sends it once.

   The executor behind `ProposalExecutor` is the account library and a prover.
   What it decides is in the request: the payload and id of the transaction, its
   expiration, and the code it fails with where a stage fails. The block it
   executes against is the tip a node reported. -/
namespace Guardian

open Interleaving Service

/-! ## Renewal -/

/-- `Renewal`. -/
inductive Renewal where
  | held
  | leaseLost
  | leaseUnavailable
  | reservationLost
  | reservationUnavailable
  deriving DecidableEq, Repr

/-- `Renewal::attempt`. -/
def Renewal.attempt {ε : Type} (cfg : Config) (fence : LeaseFence) (phase : ExecutionPhase) :
    Proc ε Renewal := do
  let now ← now
  match ← lease (.renew fence cfg.executionLeaseTtl) with
  | some true =>
    match ← fenced fence (.renewExecutionReservation fence (now + cfg.executionLeaseTtl) phase) with
    | some .applied => return .held
    | some _ => return .reservationLost
    | none => return .reservationUnavailable
  | some false => return .leaseLost
  | none => return .leaseUnavailable

/-- `release_quietly`. -/
def releaseQuietly {ε : Type} (fence : LeaseFence) : Proc ε Unit := do
  let _ ← lease (.release fence)

/-! ## The worker -/

/-- A request, with what the executor makes of it. -/
structure RequestExecutionParams where
  proposalId : String
  /-- `new_holder_id`. -/
  holderId : String
  summaryPayload : Payload
  transactionId : String
  expirationBlock : Nat
  /-- The code of a stage the executor fails. -/
  executorFailure : ExecutionFailureCode
  /-- How often the claim to send may be retried within the send window. -/
  sendRetries : Nat
  deriving DecidableEq, Repr

structure ExecutionJob where
  params : RequestExecutionParams
  attempt : Nat
  nonce : Nonce
  baseCommitment : Commitment
  scheme : SignatureScheme
  /-- The guardian slot of the state the proposal was selected on. -/
  guardian : Option String
  fence : LeaseFence
  deriving DecidableEq, Repr

/-- The lease that fences executions of the account. -/
def executionLease : String := "execution"

/-- `Stop`: why a worker did not reach the send. -/
inductive Stop where
  | failed (code : ExecutionFailureCode)
  | ownershipLost
  deriving DecidableEq, Repr

namespace Worker
variable (net : Network) (cfg : Config) (job : ExecutionJob)

/-- A shutdown before the boundary abandons the attempt, at any await. -/
def unlessShutDown : Proc Stop Unit := do
  if ← flag then fail (.failed .abandoned)

/-- A stage of the executor. -/
def executorStage : Proc Stop Unit := do
  unlessShutDown
  if ← flag then fail (.failed job.params.executorFailure)

/-- `Heartbeat::advance`: a renewal that could not be made is left to the
heartbeat. -/
def advance (phase : ExecutionPhase) : Proc Stop Unit := do
  unlessShutDown
  match ← Renewal.attempt cfg job.fence phase with
  | .leaseLost => fail .ownershipLost
  | .reservationLost => fail .ownershipLost
  | _ => return ()

/-- `ensure_guarded_by_this_guardian`. -/
def ensureGuardedByThisGuardian : Proc Stop Unit :=
  if job.guardian.any (eqIgnoreAsciiCase · (cfg.guardianCommitment job.scheme)) then return ()
  else fail (.failed .accountInadmissible)

/-- `ensure_within_horizon`. -/
def ensureWithinHorizon (referenceBlock : Nat) : Proc Stop Unit :=
  if job.params.expirationBlock - referenceBlock > cfg.executionHorizonBlocks then
    fail (.failed .expirationBeyondHorizon)
  else return ()

/-- `ensure_admissible`. -/
def ensureAdmissible : Proc Stop Unit := do
  unlessShutDown
  match ← orFail (query .pullStateHead) (.failed .accountInadmissible) with
  | none => fail (.failed .accountInadmissible)
  | some head =>
    if head.commitment ≠ job.baseCommitment then fail (.failed .accountInadmissible)
    match ← orFail (query .metadataGet) (.failed .accountInadmissible) with
    | none => fail (.failed .accountInadmissible)
    | some metadata =>
      if metadata.releasedAt.isSome ∨ metadata.pausedAt.isSome then
        fail (.failed .accountInadmissible)
      ensureGuardedByThisGuardian cfg job

/-- `ensure_sendable`: whether the send window is still open. -/
def ensureSendable : Proc Stop Unit := do
  unlessShutDown
  let _ ← orFail (node .chainTip) (.failed .nodeUnavailable)
  if ← flag then fail (.failed .expirationReached)

/-- `approach_boundary`: the acknowledged delta and the block it executed
against. -/
def approachBoundary : Proc Stop (AppliedState × DeltaObject × Nat) := do
  unlessShutDown
  let currentState ← pullState (.failed .stateMismatch)
  if currentState.commitment ≠ job.baseCommitment then fail (.failed .stateMismatch)
  ensureGuardedByThisGuardian cfg job
  executorStage job
  let referenceBlock ← orFail (node .chainTip) (.failed job.params.executorFailure)
  advance cfg job .verified
  if ← flag then fail (.failed .acknowledgementFailed)
  match net.verifyAndApplyDelta currentState.commitment currentState.stateJson
      job.params.summaryPayload with
  | none => fail (.failed .bindingMismatch)
  | some applied =>
    let now ← now
    let acknowledged : DeltaObject :=
      { nonce := job.nonce
        prevCommitment := currentState.commitment
        newCommitment := some applied.commitment
        deltaPayload := job.params.summaryPayload
        status := .newCandidate now }
    advance cfg job .acknowledged
    executorStage job
    if ← flag then fail (.failed .bindingMismatch)
    ensureWithinHorizon cfg job referenceBlock
    advance cfg job .proving
    executorStage job
    advance cfg job .proved
    executorStage job
    ensureAdmissible cfg job
    ensureSendable
    return (applied, acknowledged, referenceBlock)

/-- What the worker records before it sends. -/
def evidence (applied : AppliedState) (referenceBlock : Nat) : SubmissionEvidence where
  candidateNonce := job.nonce
  transactionId := job.params.transactionId
  expectedCommitment := applied.commitment
  referenceBlock := referenceBlock
  expirationBlock := job.params.expirationBlock
  baseCommitment := job.baseCommitment

/-- `cross_boundary`. -/
def crossBoundary (applied : AppliedState) (acknowledged : DeltaObject) (referenceBlock : Nat) :
    Proc Stop Unit := do
  let now ← now
  let admission : CandidateAdmission :=
    { fence := job.fence
      proposalId := job.params.proposalId
      attempt := job.attempt
      delta := { acknowledged with status := .newCandidate now }
      evidence := evidence job applied referenceBlock
      now := now
      archiveParked := cfg.archivesSuperseded }
  match ← orFail (fenced job.fence (.admitExecutionCandidate admission)) (.failed .stateMismatch) with
  | .admitted => return ()
  | .notAuthorized => fail .ownershipLost
  | .staleLease => fail .ownershipLost
  | .staleBase => fail (.failed .accountInadmissible)
  | .accountInactive => fail (.failed .accountInadmissible)
  | .candidateExists => fail (.failed .stateMismatch)
  | .nonceOccupied => fail (.failed .stateMismatch)

/-- `run_to_boundary`: the evidence recorded. -/
def runToBoundary : Proc Stop SubmissionEvidence := do
  let (applied, acknowledged, referenceBlock) ← approachBoundary net cfg job
  crossBoundary cfg job applied acknowledged referenceBlock
  return evidence job applied referenceBlock

/-- `claim_send`: whether the send was claimed. -/
def claimSend : Nat → Service Bool
  | 0 => return false
  | retries + 1 => do
    if ← flag then return false
    match ← Renewal.attempt cfg job.fence .sent with
    | .held => return !(← flag)
    | .leaseLost => return false
    | .reservationLost => return false
    | _ => claimSend retries

/-- `resolution`. -/
def resolution (failure : ExecutionFailureCode) (now : Time) : ExecutionResolution where
  proposalId := job.params.proposalId
  attempt := job.attempt
  fence := job.fence
  failure := failure
  now := now

/-- `fail`, and `resolve_refused_send`. -/
def resolve (failure : ExecutionFailureCode) (boundaryCrossed : Bool) : Service Unit := do
  let now ← now
  let _ ← fenced job.fence (.resolveExecution (resolution job failure now) boundaryCrossed)

/-- `submit`: an answer that did not arrive is left to the chain. -/
def submit (evidence : SubmissionEvidence) : Service Unit := do
  match ← node (.submitTransaction job.params.proposalId job.attempt evidence) with
  | some .rejected => resolve job .submissionRejected true
  | some .notProcessed => resolve job .submissionNotProcessed true
  | some .accepted => return ()
  | none => return ()

/-- `run_execution`. -/
def runExecution : Service Unit := do
  match ← absorb (runToBoundary net cfg job) with
  | .ok evidence =>
    if ← claimSend cfg job job.params.sendRetries then submit job evidence
  | .error (.failed code) => resolve job code false
  | .error .ownershipLost => pure ()
  releaseQuietly job.fence

end Worker

/-! ## The request -/

/-- `answer_active`. -/
def answerActive (active : ExecutionRecord) (proposalId : String) : Service Unit :=
  if active.reservation.proposalId = proposalId then return ()
  else fail (.executionConflict active.reservation.proposalId)

/-- `already_executing`. -/
def alreadyExecuting (proposalId : String) : Service Unit := do
  match ← orFail (query .loadActiveExecution) .storageError with
  | some active => answerActive active proposalId
  | none => fail .executionBusy

/-- The proposal to execute: one that is still pending. -/
def pendingProposal (proposalId : String) : Service DeltaObject := do
  match ← orFail (query (.pullDeltaProposal proposalId)) .storageError with
  | none => fail .proposalNotFound
  | some proposal =>
    match proposal.status with
    | .pending .. => return proposal
    | _ => fail .proposalNotFound

/-- Reserve the account under the lease just acquired, and run the worker. Any
refusal gives the lease back. -/
def reserveAndRun (net : Network) (cfg : Config) (params : RequestExecutionParams)
    (proposal : DeltaObject) (scheme : SignatureScheme) (guardian : Option String)
    (row : LeaseRow) : Service Unit := do
  let fence : LeaseFence := ⟨executionLease, row.holderId, row.fenceToken⟩
  if ← flag then
    releaseQuietly fence
    fail .executionBusy
  match ← fenced fence (.createExecutionReservation params.proposalId fence row.expiresAt) with
  | some (.created attempt) =>
    Worker.runExecution net cfg
      ⟨params, attempt, proposal.nonce, proposal.prevCommitment, scheme, guardian, fence⟩
  | some (.alreadyReserved blocking) =>
    releaseQuietly fence
    if blocking = params.proposalId then
      match ← orFail (query .loadActiveExecution) .storageError with
      | some _ => return ()
      | none => fail .storageError
    else fail (.executionConflict blocking)
  | some .candidateExists =>
    releaseQuietly fence
    fail .conflictPendingDelta
  | some .proposalGone =>
    releaseQuietly fence
    fail .proposalNotFound
  | some .staleLease =>
    releaseQuietly fence
    alreadyExecuting params.proposalId
  | none =>
    releaseQuietly fence
    fail .storageError

/-- `request_execution`. -/
def requestExecution (net : Network) (cfg : Config) (params : RequestExecutionParams) :
    Service Unit := do
  let metadata ← accountMetadata
  if ← flag then fail .authenticationFailed
  ensureAccountActive metadata
  let proposal ← pendingProposal params.proposalId
  -- the proposal executes elsewhere, or carries no transaction request
  if ← flag then fail .proposalNotReady
  match ← orFail (query .loadActiveExecution) .storageError with
  | some active => answerActive active params.proposalId
  | none =>
    if ← orFail (query .hasPendingCandidate) .storageError then fail .conflictPendingDelta
    let currentState ← pullState .stateNotFound
    if currentState.commitment ≠ proposal.prevCommitment then
      fail (.commitmentMismatch currentState.commitment proposal.prevCommitment)
    if ← flag then fail .proposalNotReady
    if ← flag then fail .executionBusy
    if ← flag then alreadyExecuting params.proposalId
    else
      match ← orFail (lease (.tryAcquire executionLease params.holderId cfg.executionLeaseTtl))
          .storageError with
      | none => alreadyExecuting params.proposalId
      | some row =>
        reserveAndRun net cfg params proposal metadata.auth.guardianScheme
          (net.extractGuardianCommitment currentState.stateJson) row

end Guardian
