import Guardian.Execution.Attempt

/- The worker with its executor (`services/execute_proposal/worker.rs`,
   `service.rs`). `Services.ExecuteProposal` has the same worker with what the
   executor decides given in the request; here the attempt decides it, and the
   worker goes on with the job that says so (`ExecutionJob.decided`). -/
namespace Guardian

open Interleaving Service

variable {T : MidenTypes}

/-- The job as the attempt has decided it. -/
def ExecutionJob.decided (M : Miden T) (job : ExecutionJob) (summaryPayload : Payload)
    (proven : ProvenTransaction T) : ExecutionJob :=
  { job with params := { job.params with
      summaryPayload := summaryPayload
      transactionId := proven.id M
      expirationBlock := proven.expirationBlockNum } }

/-- What an attempt has when it reaches the boundary. -/
structure Approached (T : MidenTypes) where
  attempt : MidenAttempt T
  proven : ProvenTransaction T
  sealed : SealedTransactionInputs T
  applied : AppliedState
  acknowledged : DeltaObject

/-- `AcknowledgedDelta`, with the signature and the public key it was made
under. -/
structure AcknowledgedDelta where
  delta : DeltaObject
  applied : AppliedState
  ackSig : String
  ackPubkey : String
  deriving DecidableEq, Repr

namespace Execution
variable (net : Network) (cfg : Config) (M : Miden T) (job : ExecutionJob)

/-- `acknowledge`: the reproduced summary is applied to the stored state and
signed. -/
def acknowledge (currentState : StateObject) (attempt : MidenAttempt T) :
    AttemptProc T Stop AcknowledgedDelta := do
  match net.verifyAndApplyDelta currentState.commitment currentState.stateJson
      attempt.summaryPayload with
  | none => stop .bindingMismatch
  | some applied =>
    match M.summaryFromJson attempt.summaryPayload with
    | none => stop .bindingMismatch
    | some summary =>
      match ← ask (.sign job.scheme (M.summaryCommitment summary)) with
      | none => stop .acknowledgementFailed
      | some (ackSig, ackPubkey) =>
        let now ← server now
        return { delta :=
                   { nonce := job.nonce
                     prevCommitment := currentState.commitment
                     newCommitment := some applied.commitment
                     deltaPayload := attempt.summaryPayload
                     status := .newCandidate now }
                 applied := applied
                 ackSig := ackSig
                 ackPubkey := ackPubkey }

/-- The acknowledgment as advice, where the transaction's authorization needs
it. -/
def guardianAck (attempt : MidenAttempt T) (acknowledged : AcknowledgedDelta) :
    Option GuardianAck :=
  if attempt.requiresAck then
    some ⟨job.scheme, acknowledged.ackSig, acknowledged.ackPubkey,
      cfg.guardianCommitment job.scheme⟩
  else none

/-- `approach_boundary`, from the execution on. -/
def proveAcknowledged (proverRetries : Nat) (attempt : MidenAttempt T)
    (acknowledged : AcknowledgedDelta) : AttemptProc T Stop (Approached T) := do
  let executed ← attempt.execute M (guardianAck cfg job attempt acknowledged)
  if !eqIgnoreAsciiCase executed.finalAccountCommitment acknowledged.applied.commitment then
    stop .bindingMismatch
  else if cfg.executionHorizonBlocks < executed.expirationBlockNum - attempt.store.referenceBlock then
    stop .expirationBeyondHorizon
  else
    server (Worker.advance cfg job .proving)
    let proven ← MidenAttempt.prove M executed proverRetries
    server (Worker.advance cfg job .proved)
    let sealed ← MidenAttempt.sealInputs M executed proven
    server (Worker.ensureAdmissible cfg job)
    server Worker.ensureSendable
    return ⟨attempt, proven, sealed, acknowledged.applied, acknowledged.delta⟩

/-- `approach_boundary`. -/
def approachBoundary (proverRetries : Nat) (selected : MidenSelected T) :
    AttemptProc T Stop (Approached T) := do
  server Worker.unlessShutDown
  let currentState ← server (pullState (.failed .stateMismatch))
  if currentState.commitment ≠ job.baseCommitment then stop .stateMismatch
  else
    server (Worker.ensureGuardedByThisGuardian cfg job)
    let attempt ← MidenAttempt.prepare M selected
    server (Worker.advance cfg job .verified)
    let acknowledged ← acknowledge net M job currentState attempt
    server (Worker.advance cfg job .acknowledged)
    proveAcknowledged cfg M job proverRetries attempt acknowledged

/-- `run_to_boundary`. -/
def runToBoundary (proverRetries : Nat) (selected : MidenSelected T) :
    AttemptProc T Stop (Approached T) := do
  let reached ← approachBoundary net cfg M job proverRetries selected
  server (Worker.crossBoundary cfg
    (job.decided M reached.attempt.summaryPayload reached.proven) reached.applied
    reached.acknowledged reached.attempt.store.referenceBlock)
  return reached

/-- `submit`. -/
def submit (reached : Approached T) : AttemptProc T GuardianError Unit := do
  match ← ask (.submit reached.proven reached.sealed) with
  | some .rejected => server (Worker.resolve job .submissionRejected true)
  | some .notProcessed => server (Worker.resolve job .submissionNotProcessed true)
  | some .accepted => return ()
  | none => return ()

/-- `run_execution`. -/
def runExecution (proverRetries : Nat) (selected : MidenSelected T) :
    AttemptProc T GuardianError Unit := do
  match ← ExceptT.lift (runToBoundary net cfg M job proverRetries selected).run with
  | .ok reached =>
    if ← server (Worker.claimSend cfg job job.params.sendRetries) then submit job reached
  | .error (.failed code) => server (Worker.resolve job code false)
  | .error .ownershipLost => pure ()
  server (releaseQuietly job.fence)

variable (params : RequestExecutionParams)

/-- Reserve the account under the lease just acquired, and run the worker. -/
def reserveAndRun (proverRetries : Nat) (proposal : DeltaObject) (scheme : SignatureScheme)
    (selected : MidenSelected T) (row : LeaseRow) : AttemptProc T GuardianError Unit := do
  let fence : LeaseFence := ⟨executionLease, row.holderId, row.fenceToken⟩
  if ← server flag then
    server (do
      releaseQuietly fence
      fail .executionBusy)
  else
    match ← server (fenced fence
        (.createExecutionReservation params.proposalId fence row.expiresAt)) with
    | some (.created attempt) =>
      runExecution net cfg M ⟨params, attempt, proposal.nonce, proposal.prevCommitment, scheme,
        selected.guardian, fence⟩ proverRetries selected
    | some (.alreadyReserved blocking) =>
      server (do
        releaseQuietly fence
        if blocking = params.proposalId then
          match ← orFail (query .loadActiveExecution) .storageError with
          | some _ => return ()
          | none => fail .storageError
        else fail (.executionConflict blocking))
    | some .candidateExists =>
      server (do
        releaseQuietly fence
        fail .conflictPendingDelta)
    | some .proposalGone =>
      server (do
        releaseQuietly fence
        fail .proposalNotFound)
    | some .staleLease =>
      server (do
        releaseQuietly fence
        alreadyExecuting params.proposalId)
    | none =>
      server (do
        releaseQuietly fence
        fail .storageError)

/-- The signatures of a pending proposal. -/
def cosignerSigs (proposal : DeltaObject) : List CosignerSignature :=
  match proposal.status with
  | .pending _ _ sigs => sigs
  | _ => []

/-- `request_execution`, from the read of the state on. -/
def selectAndRun (proverRetries : Nat) (metadata : AccountMetadata) (proposal : DeltaObject) :
    AttemptProc T GuardianError Unit := do
  let currentState ← server (pullState .stateNotFound)
  if currentState.commitment ≠ proposal.prevCommitment then
    throw (.commitmentMismatch currentState.commitment proposal.prevCommitment)
  else
    match selectSignatures M ⟨currentState.stateJson, proposal.deltaPayload,
        cosignerSigs proposal⟩ with
    | none => throw .invalidDelta
    | some selected =>
      if !selected.isReady then throw .proposalNotReady
      else if ← server flag then throw .executionBusy
      else if ← server flag then server (alreadyExecuting params.proposalId)
      else
        match ← server (orFail (lease (.tryAcquire executionLease params.holderId
            cfg.executionLeaseTtl)) .storageError) with
        | none => server (alreadyExecuting params.proposalId)
        | some row =>
          reserveAndRun net cfg M params proverRetries proposal metadata.auth.guardianScheme
            selected row

/-- `request_execution`. A switch of the guardian executes locally; the flag
says whether the summary makes one. -/
def requestExecution (proverRetries : Nat) : AttemptProc T GuardianError Unit := do
  let metadata ← server accountMetadata
  if ← server flag then throw .authenticationFailed
  else
    server (ensureAccountActive metadata)
    let proposal ← server (pendingProposal params.proposalId)
    if (proposalTxSummary M proposal.deltaPayload).isNone then throw .invalidDelta
    else if ← server flag then throw .proposalNotReady
    else if (M.transactionRequestField proposal.deltaPayload).isNone then throw .proposalNotReady
    else
      match ← server (orFail (query .loadActiveExecution) .storageError) with
      | some active => server (answerActive active params.proposalId)
      | none =>
        if ← server (orFail (query .hasPendingCandidate) .storageError) then
          throw .conflictPendingDelta
        else selectAndRun net cfg M params proverRetries metadata proposal

end Execution
end Guardian
