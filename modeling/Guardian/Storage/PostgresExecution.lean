import Guardian.Storage.Postgres

/- The execution transactions of the Postgres backend (`server/src/storage/
   postgres_execution.rs`) and the metadata writes that share the account lock
   with them (`server/src/metadata/postgres.rs`). -/
namespace Guardian
namespace Db

/-! ## Reservations -/

/-- `create_execution_reservation_tx`. -/
def createExecutionReservation (leaseCurrent : Bool) (proposalId : String) (fence : LeaseFence)
    (leaseExpiresAt : Time) (db : Db) : Option (ReservationWrite × Db) :=
  match db.metadata with
  | none => none
  | some _ =>
    if leaseCurrent then
      match db.activeExecution with
      | some active => some (.alreadyReserved active.reservation.proposalId, db)
      | none =>
        if db.hasCandidate then some (.candidateExists, db)
        else if db.proposals.any (·.commitment == proposalId) then
          let attempts := (db.executions.filter (·.reservation.proposalId == proposalId)).map
            (·.reservation.attempt)
          let attempt := attempts.foldr max 0 + 1
          let record : ExecutionRecord :=
            { reservation := ⟨proposalId, attempt, fence, leaseExpiresAt, .accepted, none⟩
              evidence := none
              outcome := none }
          some (.created attempt, { db with executions := db.executions ++ [record] })
        else some (.proposalGone, db)
    else some (.staleLease, db)

/-- `owns_live_reservation`. -/
def ownsLive (leaseCurrent : Bool) (r : ExecutionRecord) (fence : LeaseFence) : Bool :=
  r.reservation.fence == fence && leaseCurrent

/-- `renew_execution_reservation_tx`. -/
def renewExecutionReservation (leaseCurrent : Bool) (fence : LeaseFence) (leaseExpiresAt : Time)
    (phase : ExecutionPhase) (db : Db) : Option (ReservationUpdate × Db) :=
  match db.metadata with
  | none => none
  | some _ =>
    match db.activeExecution with
    | none => some (.notActive, db)
    | some r =>
      if ownsLive leaseCurrent r fence then
        some (.applied, db.updateExecution r.reservation.proposalId r.reservation.attempt
          (·.renewTo leaseExpiresAt phase))
      else some (.staleLease, db)

/-- `claim_execution_reservation_tx`. -/
def claimExecutionReservation (leaseCurrent : Bool) (expected claimant : LeaseFence)
    (leaseExpiresAt : Time) (db : Db) : Option (ClaimWrite × Db) :=
  match db.metadata with
  | none => none
  | some _ =>
    match db.activeExecution with
    | none => some (.notActive, db)
    | some r =>
      if r.reservation.fence ≠ expected then some (.claimSuperseded, db)
      else if claimant.fenceToken ≤ expected.fenceToken ∨ leaseCurrent = false then
        some (.staleLease, db)
      else
        some (.claimed, db.updateExecution r.reservation.proposalId r.reservation.attempt
          (·.claimFor claimant leaseExpiresAt))

/-! ## The boundary -/

/-- `admit_execution_candidate_tx`. The evidence's `candidate_nonce` column is
checked to be non-negative, so a nonce past `i64` aborts the transaction. -/
def admitExecutionCandidate (leaseCurrent : Bool) (a : CandidateAdmission) (db : Db) :
    Option (AdmissionWrite × Db) :=
  if a.evidenceDescribesCandidate then
    match db.metadata with
    | none => none
    | some metadata =>
      match db.activeExecution with
      | none => some (.notAuthorized, db)
      | some active =>
        if active.reservation.authorizes a.fence a.proposalId a.attempt = false ∨
            active.evidence.isSome then
          some (.notAuthorized, db)
        else if ownsLive leaseCurrent active a.fence then
          match db.state with
          | none => none
          | some state =>
            if state.commitment ≠ a.delta.prevCommitment then some (.staleBase, db)
            else if metadata.pausedAt.isSome ∨ metadata.releasedAt.isSome then
              some (.accountInactive, db)
            else if db.hasCandidate then some (.candidateExists, db)
            else
              let db₁ := db.supersedeParked a.delta.nonce a.now a.archiveParked
              match db₁.insertDelta a.delta with
              | none => some (.nonceOccupied, db₁)
              | some db₂ =>
                if nonceColumn a.delta.nonce < 0 then none
                else some (.admitted, (db₂.updateExecution a.proposalId a.attempt
                  (·.admitWith a.evidence)).setPendingFlag true)
        else some (.staleLease, db)
  else none

/-- `settle_promoted_execution_tx`. -/
def settlePromotedExecution (leaseCurrent : Bool) (fence : LeaseFence) (now : Time) (db : Db) :
    Option (SettleWrite × Db) :=
  match db.metadata with
  | none => none
  | some _ =>
    match db.activeExecution with
    | none => some (.notActive, db)
    | some r =>
      if ownsLive leaseCurrent r fence then
        match r.evidence with
        | none => some (.notPromoted, db)
        | some evidence =>
          match db.state with
          | none => none
          | some state =>
            if (db.rowAt evidence.candidateNonce).any (·.delta.status.isCanonical) ∧
                eqIgnoreAsciiCase state.commitment evidence.expectedCommitment then
              (db.settle r .committed now).map (fun db' => (.settled, db'))
            else some (.notPromoted, db)
      else some (.staleLease, db)

/-- `resolve_execution_tx`: record a failure, before the boundary
(`fail_execution`) or after it (`resolve_execution`). After it the candidate
the evidence names goes too. -/
def resolveExecution (leaseCurrent : Bool) (resolution : ExecutionResolution)
    (boundaryCrossed : Bool) (db : Db) : Option (ResolveWrite × Db) :=
  match db.metadata with
  | none => none
  | some _ =>
    match db.attemptRecord resolution.proposalId resolution.attempt with
    | none => some (.notAuthorized, db)
    | some r =>
      if r.outcome.isSome then some (.alreadyResolved, db)
      else if r.reservation.authorizes resolution.fence resolution.proposalId
          resolution.attempt = false then some (.notAuthorized, db)
      else if ownsLive leaseCurrent r resolution.fence then
        if r.boundaryCrossed ≠ boundaryCrossed then some (.wrongSideOfBoundary, db)
        else
          let db₁ := match r.evidence with
            | none => db
            | some evidence =>
              let db₁ := db.deleteRow evidence.candidateNonce (·.isCandidate)
              let db₂ := if resolution.failure.endsProposal then
                { db₁ with proposals :=
                  db₁.proposals.filter (·.commitment != resolution.proposalId) }
                else db₁
              db₂.clearPendingFlagIfNone
          (db₁.settle r (.failed resolution.failure) resolution.now).map (fun db' =>
            (.resolved, db'))
      else some (.staleLease, db)

/-! ## State and metadata writes -/

/-- `submit_state`: an unconditional upsert. -/
def submitState (state : StateObject) (db : Db) : Db :=
  { db with state := some state.asStored }

/-- `replace_state`. The commitment it reports is a second read, so a row that
is gone is an error. -/
def replaceState (state : StateObject) (expected : Commitment) (db : Db) :
    Option (StateReplace × Db) :=
  match db.state with
  | none => none
  | some current =>
    if current.commitment = expected then
      some (.replaced, { db with state := some state.asStored })
    else some (.stateMoved current.commitment, db)

/-- `MetadataStore::create`: whether the row was inserted. -/
def createMetadata (metadata : AccountMetadata) (db : Db) : Bool × Db :=
  match db.metadata with
  | some _ => (false, db)
  | none => (true, { db with metadata := some metadata })

/-- `MetadataStore::set`: an existing row keeps everything but its auth. -/
def setMetadataRow (metadata : AccountMetadata) (db : Db) : Db :=
  match db.metadata with
  | some current => { db with metadata := some { current with auth := metadata.auth } }
  | none => { db with metadata := some metadata }

inductive ReleaseTransition where
  | released
  | alreadyReleased
  | stateMoved
  deriving DecidableEq, Repr

inductive ClearTransition where
  | cleared
  | notReleased
  | stateMoved
  deriving DecidableEq, Repr

/-- `set_released_if_state`. -/
def setReleasedIfState (now : Time) (expected : Commitment) (db : Db) :
    Option (ReleaseTransition × Db) :=
  match db.metadata with
  | none => none
  | some m =>
    if m.releasedAt.isSome then some (.alreadyReleased, db)
    else if db.state.map (·.commitment) = some expected then
      some (.released, db.setMetadata (fun m => { m with releasedAt := some now }))
    else some (.stateMoved, db)

/-- `clear_released_if_state`. -/
def clearReleasedIfState (expected : Commitment) (db : Db) : Option (ClearTransition × Db) :=
  match db.metadata with
  | none => none
  | some m =>
    if m.releasedAt.isNone then some (.notReleased, db)
    else if db.state.map (·.commitment) = some expected then
      some (.cleared, db.setMetadata (fun m => { m with releasedAt := none }))
    else some (.stateMoved, db)

/-- `set_pause`: the first pause wins. -/
def setPause (now : Time) (db : Db) : Option Db :=
  match db.metadata with
  | none => none
  | some _ => some (db.setMetadata (fun m => { m with pausedAt := some (m.pausedAt.getD now) }))

/-- `clear_pause`. -/
def clearPause (db : Db) : Option Db :=
  match db.metadata with
  | none => none
  | some _ => some (db.setMetadata (fun m => { m with pausedAt := none }))

/-! ## Worker leases -/

def setLease (db : Db) (name : String) (row : LeaseRow) : Db :=
  { db with leases := Function.update db.leases name (some row) }

/-- `PgLeaseElector::try_acquire`. -/
def tryAcquire (name holderId : String) (ttl now : Time) (db : Db) : Option LeaseRow × Db :=
  match db.leases name with
  | none =>
    let row : LeaseRow := ⟨holderId, 0, now + ttl⟩
    (some row, db.setLease name row)
  | some l =>
    if l.expiresAt < now ∨ l.holderId = holderId then
      let row : LeaseRow :=
        ⟨holderId, if l.holderId = holderId then l.fenceToken else l.fenceToken + 1, now + ttl⟩
      (some row, db.setLease name row)
    else (none, db)

/-- `PgLeaseElector::renew`. -/
def renewLease (fence : LeaseFence) (ttl now : Time) (db : Db) : Bool × Db :=
  if db.leaseFenceIsCurrent fence now then
    (true, db.setLease fence.leaseName ⟨fence.holderId, fence.fenceToken, now + ttl⟩)
  else (false, db)

/-- `PgLeaseElector::release`: the row stays, so its token keeps counting. -/
def releaseLease (fence : LeaseFence) (now : Time) (db : Db) : Db :=
  match db.leases fence.leaseName with
  | some l =>
    if l.holderId = fence.holderId ∧ l.fenceToken = fence.fenceToken then
      db.setLease fence.leaseName { l with expiresAt := now }
    else db
  | none => db

end Db
end Guardian
