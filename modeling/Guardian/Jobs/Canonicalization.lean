import Guardian.Service

/- The canonicalization processor (`jobs/canonicalization/processor.rs`): the
   full pass over an account's queue and the fast pass that only promotes.

   A pass works from the rows it read at its start. Everything it writes is
   fenced by its lease and keyed by nonce and kind; the rest is what the
   transactions check. -/
namespace Guardian

open Interleaving Service

inductive ProcessingMode where
  | full
  | promoteRecent (maxAgeSeconds : Nat)
  deriving DecidableEq, Repr

inductive CandidateStep where
  | processed
  | orphaned
  deriving DecidableEq, Repr

/-- `candidate_age_seconds`, for a candidate. -/
def candidateAgeSeconds (delta : DeltaObject) (now : Time) : Option Nat :=
  if delta.status.isCandidate then some (now - delta.status.timestamp) else none

namespace Processor
variable (net : Network) (cfg : Config) (fence : LeaseFence)

/-! ## Writes -/

/-- A status write of the pass, computed from `delta`. -/
def updateCandidateStatus (delta : DeltaObject) (status : DeltaStatus) : Service CanonicalWrite :=
  orFail (fenced fence (.updateCandidateStatus delta.nonce status delta)) .storageError

/-- A lost lease ends the account's pass; a row that is gone or protected is
left to its owner. -/
def ensureLeaseKept (outcome : CanonicalWrite) : Service Unit :=
  if outcome = .staleLease then fail .storageError else return ()

/-- `delete_matching_proposal`: whether the cleanup is known to be done. -/
def deleteMatchingProposal (delta : DeltaObject) : Service Bool := do
  match net.deltaProposalId delta.nonce delta.deltaPayload with
  | none => return true
  | some id =>
    match ← query (.pullDeltaProposal id) with
    | some (some _) => return (← write (.deleteDeltaProposal id)).isSome
    | some none => return true
    | none => return false

/-- `release_account_if_queue_empty`. -/
def releaseAccountIfQueueEmpty : Service Unit := do
  match ← query .hasPendingCandidate with
  | some false => let _ ← write .clearPendingCandidateIfNone
  | _ => return ()

/-- `remove_delta`. -/
def removeDelta (delta : DeltaObject) (kind : DeltaStatusKind) : Service CanonicalWrite := do
  let outcome ← orFail (fenced fence (.discardCandidate delta.nonce kind delta)) .storageError
  if outcome = .applied then
    let _ ← deleteMatchingProposal net delta
  return outcome

/-- `retain_candidate`. -/
def retainCandidate (delta : DeltaObject) (reason : RetainReason) (now : Time) :
    Service CanonicalWrite := do
  let outcome ← updateCandidateStatus fence delta (.retained now (some reason))
  if outcome = .applied then
    releaseAccountIfQueueEmpty
    let _ ← deleteMatchingProposal net delta
  return outcome

/-- `park_candidate`: retained while retention is on, deleted otherwise. -/
def parkCandidate (delta : DeltaObject) (reason : RetainReason) (now : Time) : Service Unit := do
  let outcome ←
    if 0 < cfg.retainedTtlSeconds then retainCandidate net fence delta reason now
    else removeDelta net fence delta .candidate
  ensureLeaseKept outcome

/-- `finalize_abandoned_candidate`. -/
def finalizeAbandonedCandidate (delta : DeltaObject) : Service Unit := do
  match ← query .loadActiveExecution with
  | none => return ()
  | some execution =>
    if execution.any (·.ownsCandidate delta.nonce) then return ()
    if ← deleteMatchingProposal net delta then
      let now ← now
      let outcome ← updateCandidateStatus fence delta (.discardedClientAbandoned now)
      ensureLeaseKept outcome
      if outcome = .applied then releaseAccountIfQueueEmpty

/-! ## Promotion -/

/-- `release_if_guardian_switched`. -/
def releaseIfGuardianSwitched (metadata : AccountMetadata) (guardian : Option String)
    (newCommitment : Commitment) : Service Unit := do
  if guardian.any (· != cfg.guardianCommitment metadata.auth.guardianScheme) then
    let now ← now
    let _ ← write (.setReleasedIfState now newCommitment)

/-- `canonicalize_verified_delta`: whether the promotion applied. -/
def canonicalizeVerifiedDelta (delta : DeltaObject) (applied : AppliedState)
    (source : PromotableKind) : Service Unit := do
  let metadata ← accountMetadata
  let _ ← pullState .storageError
  let now ← now
  let promotion : CandidatePromotion :=
    { state := ⟨applied.stateJson, applied.commitment, applied.nonce⟩
      delta := { delta with newCommitment := some applied.commitment, status := .canonical now }
      newAuth := applied.updatedAuth metadata.auth
      now := now
      source := source }
  match ← orFail (fenced fence (.promoteCandidate promotion)) .storageError with
  | .staleLease => fail .storageError
  | .notCandidate => return ()
  | .staleBase => return ()
  | .applied _ =>
    match net.deltaProposalId delta.nonce delta.deltaPayload with
    | none => pure ()
    | some id =>
      match ← query (.pullDeltaProposal id) with
      | some (some _) => let _ ← write (.deleteDeltaProposal id)
      | _ => pure ()
    releaseIfGuardianSwitched cfg metadata applied.guardianCommitment applied.commitment

/-- `finish_interrupted_promotion`: the stored state already is the delta's
post-state and the chain has it. -/
def finishInterruptedPromotion (delta : DeltaObject) (currentState : StateObject) :
    Service (Option CandidateStep) := do
  if delta.newCommitment ≠ some currentState.commitment then return none
  match ← node (.verifyCommitment currentState.commitment .singleAttempt) with
  | some .match =>
    match net.accountAuthBinding currentState.stateJson with
    | none => fail .invalidDelta
    | some binding =>
      canonicalizeVerifiedDelta net cfg fence delta
        ⟨currentState.stateJson, currentState.commitment, currentState.nonce, binding.signers,
          binding.guardian⟩ .candidate
      return some .processed
  | _ => return none

/-! ## Candidates that did not verify -/

/-- `handle_orphaned_candidate`. -/
def handleOrphanedCandidate (delta : DeltaObject) : Service Unit := do
  if delta.status.abandonRequestedAt.isSome then finalizeAbandonedCandidate net fence delta
  else
    let now ← now
    parkCandidate net cfg fence delta .orphaned now

/-- `handle_abandon_confirmation`. -/
def handleAbandonConfirmation (delta : DeltaObject) : Service Unit := do
  let confirmations := delta.status.abandonConfirmCount + 1
  let now ← now
  let requestAgeSeconds := now - delta.status.abandonRequestedAt.getD 0
  if cfg.abandonQuarantineChecks ≤ confirmations ∧
      cfg.abandonQuarantineSeconds ≤ requestAgeSeconds then
    finalizeAbandonedCandidate net fence delta
  else
    let outcome ← updateCandidateStatus fence delta delta.status.withIncrementedAbandonConfirm
    ensureLeaseKept outcome

/-- `reset_divergence_streak`: the delta, with its streak reset where the write
applied. -/
def resetDivergenceStreak (delta : DeltaObject) : Service DeltaObject := do
  if delta.status.divergenceCount = 0 then return delta
  let status := delta.status.withResetDivergence
  let outcome ← updateCandidateStatus fence delta status
  ensureLeaseKept outcome
  return if outcome = .applied then { delta with status := status } else delta

/-- `handle_diverged_candidate`. -/
def handleDivergedCandidate (delta : DeltaObject) : Service Unit := do
  if delta.status.divergenceCount + 1 < cfg.divergenceConfirmations then
    let outcome ← updateCandidateStatus fence delta delta.status.withIncrementedDivergence
    ensureLeaseKept outcome
  else
    let now ← now
    if delta.status.abandonRequestedAt.isSome then finalizeAbandonedCandidate net fence delta
    else parkCandidate net cfg fence delta .diverged now

/-- `handle_unverified_candidate`. -/
def handleUnverifiedCandidate (delta : DeltaObject) : Service Unit := do
  let now ← now
  if (candidateAgeSeconds delta now).any (· < cfg.submissionGracePeriodSeconds) then return ()
  if cfg.maxRetries ≤ delta.status.retryCount + 1 then
    if delta.status.abandonRequestedAt.isSome then finalizeAbandonedCandidate net fence delta
    else parkCandidate net cfg fence delta .retryExhausted now
  else
    let outcome ← updateCandidateStatus fence delta (delta.status.withIncrementedRetry now)
    ensureLeaseKept outcome

/-- The chain reads as if the candidate had not landed yet. -/
def handleNotLanded (delta : DeltaObject) : Service Unit := do
  let delta ← resetDivergenceStreak fence delta
  if delta.status.abandonRequestedAt.isSome then handleAbandonConfirmation net cfg fence delta
  else handleUnverifiedCandidate net cfg fence delta

/-! ## One candidate -/

/-- `landed_through_successor`. -/
def landedThroughSuccessor (delta : DeltaObject) (recomputed onChain : Commitment)
    (successors : List Commitment) : Bool :=
  delta.newCommitment == some recomputed && successors.contains onChain

/-- `executed_candidate_landed`. -/
def executedCandidateLanded (delta : DeltaObject) (recomputed : Commitment) : Service Bool := do
  match ← query .loadActiveExecution with
  | some (some record) =>
    match record.evidence with
    | none => return false
    | some evidence =>
      if evidence.candidateNonce ≠ delta.nonce ∨
          eqIgnoreAsciiCase evidence.expectedCommitment recomputed = false then return false
      match ← node (.findTransactionEndingAt recomputed evidence.referenceBlock) with
      | some search => return search.foundInBlock.isSome
      | none => return false
  | _ => return false

/-- What `process_full_candidate` does with the chain's answer. -/
def settleFullCandidate (delta : DeltaObject) (applied : AppliedState)
    (successors : List Commitment) : Option StateVerification → Service Unit
  | some .match => canonicalizeVerifiedDelta net cfg fence delta applied .candidate
  | some .absent => handleNotLanded net cfg fence delta
  | some (.mismatch onChain) => do
    if landedThroughSuccessor delta applied.commitment onChain successors then
      canonicalizeVerifiedDelta net cfg fence delta applied .candidate
    else if onChain ≠ delta.prevCommitment then
      if ← executedCandidateLanded delta applied.commitment then
        canonicalizeVerifiedDelta net cfg fence delta applied .candidate
      else handleDivergedCandidate net cfg fence delta
    else handleNotLanded net cfg fence delta
  | none => handleUnverifiedCandidate net cfg fence delta

/-- `process_full_candidate`. -/
def processFullCandidate (delta : DeltaObject) (successors : List Commitment) :
    Service CandidateStep := do
  let currentState ← pullState .storageError
  if currentState.commitment ≠ delta.prevCommitment then
    match ← finishInterruptedPromotion net cfg fence delta currentState with
    | some step => return step
    | none =>
      handleOrphanedCandidate net cfg fence delta
      return .orphaned
  match net.applyDelta currentState.stateJson delta.deltaPayload with
  | none => fail .invalidDelta
  | some applied =>
    let verified ← node (.verifyCommitment applied.commitment .singleAttempt)
    settleFullCandidate net cfg fence delta applied successors verified
    return .processed

/-- `process_recent_candidate`. -/
def processRecentCandidate (delta : DeltaObject) (successors : List Commitment) :
    Service CandidateStep := do
  match delta.newCommitment with
  | none => return .processed
  | some claimed =>
    match ← orFail (node (.verifyCommitment claimed .singleAttempt)) .networkError with
    | .absent => return .processed
    | .mismatch onChain =>
      if onChain ∈ successors then promote claimed else return .processed
    | .match => promote claimed
where
  promote (claimed : Commitment) : Service CandidateStep := do
    let currentState ← pullState .storageError
    if currentState.commitment ≠ delta.prevCommitment then return .orphaned
    match net.applyDelta currentState.stateJson delta.deltaPayload with
    | none => fail .invalidDelta
    | some applied =>
      if applied.commitment ≠ claimed then return .processed
      canonicalizeVerifiedDelta net cfg fence delta applied .candidate
      return .processed

def processCandidate (mode : ProcessingMode) (delta : DeltaObject) (successors : List Commitment) :
    Service CandidateStep :=
  match mode with
  | .full => processFullCandidate net cfg fence delta successors
  | .promoteRecent _ => processRecentCandidate net cfg fence delta successors

/-! ## The queue -/

/-- `predecessor_still_queued`. -/
def predecessorStillQueued (mode : ProcessingMode) : Option Nonce → Service Bool
  | none => return false
  | some nonce => do
    match mode with
    | .promoteRecent _ => return true
    | .full =>
      match ← query (.pullDelta nonce) with
      | some (some existing) => return existing.status.isCandidate
      | some none => return false
      | none => return true

/-- The stored commitment a candidate has to build on: the head is left to its
own check, `none` when the state cannot be read. -/
def storedBase : Bool → Service (Option (Option Commitment))
  | true => return some none
  | false => do
    match ← query .pullState with
    | some (some state) => return some (some state.commitment)
    | _ => return none

/-- Whether a candidate that does not build on the stored state waits for the
one before it. -/
def awaitsPredecessor (mode : ProcessingMode) (predecessor : Option Nonce) :
    Bool → Service Bool
  | true => predecessorStillQueued mode predecessor
  | false => return false

/-- The loop of `process_candidate_list`: whether the next candidate is the
head, whether the chain broke before it, its predecessor, and the first error
so far. -/
def processQueue (mode : ProcessingMode) (isHead chainBroken : Bool)
    (predecessor : Option (Nonce × Option Commitment)) (firstError : Option GuardianError) :
    List DeltaObject → Service (Option GuardianError)
  | [] => return firstError
  | delta :: rest => do
    if ← flag then return firstError
    match ← storedBase isHead with
    | none => return firstError.or (some .storageError)
    | some stored =>
      let chainsFromStore := stored.all (· = delta.prevCommitment)
      let chainsFromQueue := !chainBroken &&
        (predecessor.bind (·.2)) == some delta.prevCommitment
      let here := some (delta.nonce, delta.newCommitment)
      if chainsFromStore then
        let successors := rest.filterMap (·.newCommitment)
        match ← absorb (processCandidate net cfg fence mode delta successors) with
        | .ok .processed => processQueue mode false false here firstError rest
        | .ok .orphaned => processQueue mode false true here firstError rest
        | .error e => processQueue mode false false here (firstError.or (some e)) rest
      else if ← awaitsPredecessor mode (predecessor.map (·.1)) chainsFromQueue then
        return firstError
      else
        match mode with
        | .promoteRecent _ => return firstError
        | .full =>
          match ← absorb (handleOrphanedCandidate net cfg fence delta) with
          | .ok _ => processQueue mode false true here firstError rest
          | .error e => processQueue mode false true here (firstError.or (some e)) rest

/-- `process_candidate_list`. -/
def processCandidateList (mode : ProcessingMode) (candidates : List DeltaObject) :
    Service Unit := do
  let now ← now
  let candidates := match mode with
    | .full => candidates
    | .promoteRecent maxAge =>
      candidates.filter (fun d => (candidateAgeSeconds d now).any (· < maxAge))
  match ← processQueue net cfg fence mode true false none none candidates with
  | some e => fail e
  | none => return ()

/-- `process_account`. -/
def processAccount : Service Unit := do
  let metadata ← accountMetadata
  let candidates ← orFail (query (.pullCandidateDeltas true)) .storageError
  if candidates.isEmpty then
    if metadata.hasPendingCandidate then
      let _ ← write .clearPendingCandidateIfNone
    return ()
  processCandidateList net cfg fence .full candidates

/-- `process_full_pass`, as far as this account is concerned. -/
def processFullPass : Service Unit := do
  if ← orFail (query .listWithPendingCandidates) .storageError then
    if ← flag then return ()
    let _ ← absorb (processAccount net cfg fence)

/-! ## The fast pass -/

/-- `process_recent_page`, for the rows of this account. -/
def processRecentPage (maxAge : Nat) (candidates : List DeltaObject) : Service Unit := do
  let now ← now
  let recent := candidates.filter (fun d => (candidateAgeSeconds d now).any (· < maxAge))
  let sorted := recent.insertionSort (fun a b => a.nonce.toNat ≤ b.nonce.toNat)
  if sorted.isEmpty then return ()
  if ← flag then return ()
  let _ ← absorb (do
    let _ ← accountMetadata
    processCandidateList net cfg fence (.promoteRecent maxAge) sorted)

/-- The pages of `process_recent_pass`; the deadline ends the loop between any
two. All accounts share a page, so the candidate it ends with is this account's
last one, or another account's: `pages` says which, page by page. -/
def processRecentPages (maxAge : Nat) (cutoff : Time) :
    List (Option RecentCandidateCursor) → Option RecentCandidateCursor → Service Unit
  | [], _ => return ()
  | next :: pages, cursor => do
    if ← flag then return ()
    let page ← orFail (query (.pullRecentCandidateDeltas cutoff cursor)) .storageError
    match next.or (page.getLast?.map (fun last => ⟨last.status.timestamp, .eq, last.nonce⟩)) with
    | none => return ()
    | some cursor =>
      if ← flag then return ()
      processRecentPage net cfg fence maxAge page
      processRecentPages maxAge cutoff pages (some cursor)

/-- `process_recent_pass`, continuing from a cursor an earlier pass left. -/
def processRecentPass (maxAge : Nat) (pages : List (Option RecentCandidateCursor))
    (cursor : Option RecentCandidateCursor) : Service Unit := do
  let now ← now
  processRecentPages net cfg fence maxAge (now - maxAge) pages cursor

end Processor
end Guardian
