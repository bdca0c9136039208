import Guardian.Lib.Stops
import Guardian.Storage.Filesystem

/- The execution operations of the filesystem backend (`server/src/storage/
   filesystem.rs`). The records of an account are one file, rewritten whole; the
   candidate, the flag, the proposal and the admission marker are files of their
   own. An admission commits with its evidence, which it writes last; a
   resolution ends with the outcome.

   Leases are in the process's memory, so an operation reads the reservation's
   own deadline. -/
namespace Guardian

/-- `owns_live`: the fence owns the reservation, and its lease has not
expired. -/
def ExecutionReservation.ownsLive (r : ExecutionReservation) (fence : LeaseFence) (now : Time) :
    Bool :=
  r.fence == fence && decide (now < r.leaseExpiresAt)

/-- `belongs_to`. -/
def InterruptedAdmission.belongsTo (marker : InterruptedAdmission) (r : ExecutionReservation) :
    Bool :=
  marker.proposalId == r.proposalId && marker.attempt == r.attempt

/-- What `ensure_evidence_describes_candidate` asks of a candidate. -/
def SubmissionEvidence.describes (evidence : SubmissionEvidence) (candidate : DeltaObject) : Bool :=
  evidence.candidateNonce == candidate.nonce &&
    evidence.baseCommitment == candidate.prevCommitment

namespace Files

/-- `load_active_execution`. -/
def activeExecution (files : Files) : Option ExecutionRecord := files.executions.find? (·.isActive)

/-- `write_executions`, with one attempt's record rewritten. -/
def updateExecution (proposalId : String) (attempt : Nat) (f : ExecutionRecord → ExecutionRecord)
    (files : Files) : Files :=
  { files with executions := files.executions.map (fun r =>
      if r.isAttempt proposalId attempt then f r else r) }

def writeExecution (record : ExecutionRecord) (files : Files) : Files :=
  { files with executions := files.executions ++ [record] }

/-- `write_admission_marker`. -/
def writeAdmissionMarker (marker : InterruptedAdmission) (files : Files) : Files :=
  { files with admission := some marker }

/-- `delete_delta_proposal`. -/
def deleteDeltaProposal (proposalId : String) (files : Files) : Files :=
  { files with proposals := files.proposals.filter (· != proposalId) }

/-! ## Reservations -/

/-- `create_execution_reservation`; `leaseFits` is `ensure_execution_lease`. -/
def createExecutionReservation (files : Files) (leaseFits : Bool) (proposalId : String)
    (fence : LeaseFence) (leaseExpiresAt now : Time) : Option (Plan ReservationWrite) :=
  if leaseFits = false then none
  else if leaseExpiresAt ≤ now then some (.reply .staleLease)
  else
    match files.activeExecution with
    | some active => some (.reply (.alreadyReserved active.reservation.proposalId))
    | none =>
      if files.candidates.isEmpty = false then some (.reply .candidateExists)
      else if proposalId ∈ files.proposals then
        let attempts := (files.executions.filter (·.reservation.proposalId == proposalId)).map
          (·.reservation.attempt)
        let attempt := attempts.foldr max 0 + 1
        let record : ExecutionRecord :=
          { reservation := ⟨proposalId, attempt, fence, leaseExpiresAt, .accepted, none⟩
            evidence := none
            outcome := none }
        some ⟨[writeExecution record], .created attempt⟩
      else some (.reply .proposalGone)

/-- `renew_execution_reservation`. -/
def renewExecutionReservation (files : Files) (fence : LeaseFence) (leaseExpiresAt : Time)
    (phase : ExecutionPhase) (now : Time) : Plan ReservationUpdate :=
  match files.activeExecution with
  | none => .reply .notActive
  | some active =>
    if active.reservation.ownsLive fence now then
      ⟨[updateExecution active.reservation.proposalId active.reservation.attempt
        (·.renewTo leaseExpiresAt phase)], .applied⟩
    else .reply .staleLease

/-- `claim_execution_reservation`. -/
def claimExecutionReservation (files : Files) (leaseFits : Bool) (expected claimant : LeaseFence)
    (leaseExpiresAt now : Time) : Option (Plan ClaimWrite) :=
  if leaseFits = false then none
  else
    match files.activeExecution with
    | none => some (.reply .notActive)
    | some active =>
      if active.reservation.fence ≠ expected then some (.reply .claimSuperseded)
      else if claimant.fenceToken ≤ expected.fenceToken ∨ leaseExpiresAt ≤ now then
        some (.reply .staleLease)
      else
        some ⟨[updateExecution active.reservation.proposalId active.reservation.attempt (fun r =>
          { r with reservation :=
            { r.reservation with fence := claimant, leaseExpiresAt := leaseExpiresAt } })],
          .claimed⟩

/-! ## The boundary -/

/-- The writes an admission ends with. The evidence is the commit point; a stop
before it leaves an attempt that was never sent, with the candidate it may have
written named by the marker. -/
def admissionWrites (active : ExecutionRecord) (a : CandidateAdmission) : List (Files → Files) :=
  [writeAdmissionMarker ⟨active.reservation.proposalId, active.reservation.attempt, a.delta.nonce⟩,
    writeDelta a.delta, setPendingFlag,
    updateExecution active.reservation.proposalId active.reservation.attempt
      (·.admitWith a.evidence)]

/-- `admit_execution_candidate`. -/
def admitExecutionCandidate (files : Files) (a : CandidateAdmission) :
    Option (Plan AdmissionWrite) :=
  if a.evidenceDescribesCandidate = false then none
  else
    match files.activeExecution with
    | none => some (.reply .notAuthorized)
    | some active =>
      if active.reservation.authorizes a.fence a.proposalId a.attempt = false ∨
          active.evidence.isSome then
        some (.reply .notAuthorized)
      else if active.reservation.ownsLive a.fence a.now = false then some (.reply .staleLease)
      else
        match files.state with
        | none => none
        | some state =>
          if state.commitment ≠ a.delta.prevCommitment then some (.reply .staleBase)
          else
            match files.metadata with
            | none => none
            | some metadata =>
              if metadata.pausedAt.isSome ∨ metadata.releasedAt.isSome then
                some (.reply .accountInactive)
              else if files.candidates.isEmpty = false then some (.reply .candidateExists)
              else
                match files.pullDelta a.delta.nonce with
                | none => some ⟨admissionWrites active a, .admitted⟩
                | some existing =>
                  if existing.status.isParked then
                    let archive := if a.archiveParked then [archiveDelta existing a.now] else []
                    some ⟨archive ++ [deleteDelta a.delta.nonce] ++ admissionWrites active a,
                      .admitted⟩
                  else some (.reply .nonceOccupied)

/-! ## Endings -/

/-- `resolvable`: the record the resolution ends, or why it does not. -/
def resolvable (files : Files) (r : ExecutionResolution) : Except ResolveWrite ExecutionRecord :=
  match files.executions.find? (·.isAttempt r.proposalId r.attempt) with
  | none => .error .notAuthorized
  | some record =>
    if record.outcome.isSome then .error .alreadyResolved
    else if record.reservation.authorizes r.fence r.proposalId r.attempt = false then
      .error .notAuthorized
    else if record.reservation.ownsLive r.fence r.now = false then .error .staleLease
    else .ok record

/-- The outcome of an attempt, with its reservation released. -/
def settleExecution (record : ExecutionRecord) (terminal : ExecutionTerminal) (now : Time) :
    Files → Files :=
  updateExecution record.reservation.proposalId record.reservation.attempt
    (·.settleAs terminal now)

/-- Delete the row at a nonce, where a candidate was read there. -/
def removeCandidate (files : Files) (nonce : Nonce) : List (Files → Files) :=
  if (files.pullDelta nonce).any (·.status.isCandidate) then [deleteDelta nonce] else []

/-- `resolve_execution`. -/
def resolveExecution (files : Files) (r : ExecutionResolution) : Plan ResolveWrite :=
  match files.resolvable r with
  | .error refused => .reply refused
  | .ok record =>
    match record.evidence with
    | none => .reply .wrongSideOfBoundary
    | some evidence =>
      -- a stop before the outcome leaves an unresolved attempt past its boundary
      let proposal := if r.failure.endsProposal then [deleteDeltaProposal r.proposalId] else []
      ⟨files.removeCandidate evidence.candidateNonce ++ proposal ++
        [releasePendingFlag, settleExecution record (.failed r.failure) r.now], .resolved⟩

/-- `fail_execution`: a marker of this attempt without evidence is an admission
that stopped short, and may have written its candidate. -/
def failExecution (files : Files) (r : ExecutionResolution) : Plan ResolveWrite :=
  match files.resolvable r with
  | .error refused => .reply refused
  | .ok record =>
    if record.evidence.isSome then .reply .wrongSideOfBoundary
    else
      let removal := match files.admission.filter (·.belongsTo record.reservation) with
        | some interrupted => files.removeCandidate interrupted.nonce
        | none => []
      ⟨removal ++ [settleExecution record (.failed r.failure) r.now], .resolved⟩

/-- `settle_promoted_execution`. -/
def settlePromotedExecution (files : Files) (fence : LeaseFence) (now : Time) :
    Option (Plan SettleWrite) :=
  match files.activeExecution with
  | none => some (.reply .notActive)
  | some active =>
    if active.reservation.ownsLive fence now = false then some (.reply .staleLease)
    else
      match active.evidence with
      | none => some (.reply .notPromoted)
      | some evidence =>
        match files.state with
        | none => none
        | some state =>
          if (files.pullDelta evidence.candidateNonce).any (·.status.isCanonical) ∧
              eqIgnoreAsciiCase state.commitment evidence.expectedCommitment then
            some ⟨[settleExecution active .committed now], .settled⟩
          else some (.reply .notPromoted)

/-! ## Pruning -/

/-- All but the first `limit` records with `p`. -/
def dropUpTo {α : Type} (p : α → Bool) : Nat → List α → List α
  | _, [] => []
  | 0, records => records
  | limit + 1, record :: records =>
    if p record then dropUpTo p limit records else record :: dropUpTo p (limit + 1) records

/-- Ended before the cutoff, and a later attempt there is or the proposal gone. An
outcome and the release of its reservation have one time. -/
def prunable (files : Files) (cutoff : Time) (record : ExecutionRecord) : Bool :=
  record.outcome.isSome && record.reservation.releasedAt.any (fun t => decide (t < cutoff)) &&
    (files.executions.any (fun r => r.reservation.proposalId == record.reservation.proposalId &&
        decide (record.reservation.attempt < r.reservation.attempt)) ||
      !decide (record.reservation.proposalId ∈ files.proposals))

/-- `prune_account_executions`. -/
def pruneAccountExecutions (files : Files) (cutoff : Time) (limit : Nat) : Plan Nat :=
  let kept := dropUpTo (files.prunable cutoff) limit files.executions
  if kept.length < files.executions.length then
    ⟨[fun f => { f with executions := kept }], files.executions.length - kept.length⟩
  else .reply 0

end Files
end Guardian
