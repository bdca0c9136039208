import Guardian.Lib.Table
import Guardian.Storage.Execution

/- The Postgres backend (`server/src/storage/postgres.rs`, `storage/
   postgres_execution.rs`): the rows of one account and the transactions over
   them. A transaction is a function of the rows; `none` is an error, which
   rolls back. The account lock and the moment the lease is validated belong to
   the caller: a fenced transaction is told whether its fence was current.

   Every transaction changes the `deltas` table in one of four ways: it admits
   a row (over the parked row at its nonce), rewrites the status of one row,
   deletes one, or writes an archived row back. `Storage.Transactions` says
   which, with the guards. -/
namespace Guardian

/-- A row of `deltas`: its serial id and the delta. -/
structure DeltaRow where
  id : Nat
  delta : DeltaObject
  deriving DecidableEq, Repr

/-- The `deltas.nonce` column, unique per account. -/
def DeltaRow.column (r : DeltaRow) : Int := nonceColumn r.delta.nonce

/-- The row with its status and post commitment rewritten. -/
def DeltaRow.rewrite (r : DeltaRow) (status : DeltaStatus → DeltaStatus)
    (newCommitment : Option Commitment → Option Commitment) : DeltaRow :=
  { r with delta := { r.delta with
      status := status r.delta.status, newCommitment := newCommitment r.delta.newCommitment } }

theorem DeltaRow.column_rewrite (status : DeltaStatus → DeltaStatus)
    (newCommitment : Option Commitment → Option Commitment) (r : DeltaRow) :
    (r.rewrite status newCommitment).column = r.column := rfl

/-- A row of `delta_proposals`: the commitment cosigners sign and the delta. -/
structure ProposalRecord where
  commitment : Commitment
  proposal : DeltaObject
  deriving DecidableEq, Repr

/-- A row of `worker_leases`. -/
structure LeaseRow where
  holderId : String
  fenceToken : Nat
  expiresAt : Time
  deriving DecidableEq, Repr

/-- The rows of one account, and the leases. `nextId` is the `deltas` serial. -/
structure Db where
  state : Option StateObject
  metadata : Option AccountMetadata
  deltas : Table DeltaRow.column
  nextId : Nat
  superseded : List SupersededDelta
  proposals : List ProposalRecord
  executions : List ExecutionRecord
  leases : String → Option LeaseRow

namespace Db

/-- Nothing is stored. -/
def empty : Db where
  state := none
  metadata := none
  deltas := .empty
  nextId := 0
  superseded := []
  proposals := []
  executions := []
  leases := fun _ => none

/-! ## Statements -/

/-- The row at a nonce. -/
def rowAt (db : Db) (nonce : Nonce) : Option DeltaRow := db.deltas.find? (nonceColumn nonce)

/-- Queued candidates in the order of the nonce column. -/
def candidates (db : Db) : List DeltaRow := db.deltas.select (·.delta.status.isCandidate)

def hasCandidate (db : Db) : Bool := db.deltas.rows.any (·.delta.status.isCandidate)

/-- The queue as the gate reads it. -/
def queue (db : Db) : List QueuedCandidate := db.candidates.map (fun r => .of r.delta)

def setMetadata (db : Db) (f : AccountMetadata → AccountMetadata) : Db :=
  { db with metadata := db.metadata.map f }

def setPendingFlag (db : Db) (flag : Bool) : Db :=
  db.setMetadata (fun m => { m with hasPendingCandidate := flag })

/-- `clear_pending_flag_if_none`. -/
def clearPendingFlagIfNone (db : Db) : Db :=
  if db.hasCandidate then db else db.setPendingFlag false

/-- `archive_parked_delta`. -/
def archiveParkedDelta (db : Db) (nonce : Nonce) (supersededAt : Time) : Db :=
  match db.rowAt nonce with
  | some r =>
    if r.delta.status.isParked then
      { db with superseded := db.superseded ++ [⟨r.delta, supersededAt⟩] }
    else db
  | none => db

/-- Rows of `deltas` at a nonce whose status satisfies `p`. -/
def isAt (nonce : Nonce) (p : DeltaStatus → Bool) (r : DeltaRow) : Bool :=
  r.delta.nonce == nonce && p r.delta.status

def deleteRow (db : Db) (nonce : Nonce) (p : DeltaStatus → Bool) : Db :=
  { db with deltas := db.deltas.delete (Db.isAt nonce p) }

/-- Rewrite the rows at a nonce whose status satisfies `p`. -/
def updateRow (db : Db) (nonce : Nonce) (p : DeltaStatus → Bool)
    (status : DeltaStatus → DeltaStatus) (newCommitment : Option Commitment → Option Commitment) :
    Db :=
  let rows := db.deltas.update (Db.isAt nonce p) (·.rewrite status newCommitment)
    (DeltaRow.column_rewrite status newCommitment)
  { db with deltas := rows }

/-- `INSERT INTO deltas ... ON CONFLICT (nonce) DO NOTHING`; `none` when the
nonce is taken. -/
def insertDelta (db : Db) (delta : DeltaObject) : Option Db :=
  match db.rowAt delta.nonce with
  | some _ => none
  | none => some { db with deltas := db.deltas.insert ⟨db.nextId, delta⟩, nextId := db.nextId + 1 }

/-- Make room at the nonce of a new candidate: a parked row there is archived
where the policy says so, and deleted. -/
def supersedeParked (db : Db) (nonce : Nonce) (now : Time) (archive : Bool) : Db :=
  (if archive then db.archiveParkedDelta nonce now else db).deleteRow nonce (·.isParked)

/-! ## Executions -/

def activeExecution (db : Db) : Option ExecutionRecord := db.executions.find? (·.isActive)

/-- `owning_reservation`: the active execution whose evidence names the nonce. -/
def owningExecution (db : Db) (nonce : Nonce) : Option ExecutionRecord :=
  db.activeExecution.filter (·.ownsCandidate nonce)

def attemptRecord (db : Db) (proposalId : String) (attempt : Nat) : Option ExecutionRecord :=
  db.executions.find? (·.isAttempt proposalId attempt)

def updateExecution (db : Db) (proposalId : String) (attempt : Nat)
    (f : ExecutionRecord → ExecutionRecord) : Db :=
  { db with executions := db.executions.map (fun r =>
      if r.isAttempt proposalId attempt then f r else r) }

/-- `insert_outcome` and `release_reservation`; an attempt has one outcome. -/
def settle (db : Db) (r : ExecutionRecord) (terminal : ExecutionTerminal) (now : Time) :
    Option Db :=
  match r.outcome with
  | some _ => none
  | none => some (db.updateExecution r.reservation.proposalId r.reservation.attempt
      (·.settleAs terminal now))

/-- `commit_promoted_execution`. -/
def commitPromotedExecution (db : Db) (nonce : Nonce) (promoted : Commitment) (now : Time) :
    Option (Bool × Db) :=
  match db.owningExecution nonce with
  | none => some (false, db)
  | some r =>
    match r.evidence with
    | none => some (false, db)
    | some evidence =>
      if eqIgnoreAsciiCase evidence.expectedCommitment promoted then
        (db.settle r .committed now).map (fun db' => (true, db'))
      else some (false, db)

/-! ## Leases -/

/-- `lease_fence_is_current`. -/
def leaseFenceIsCurrent (db : Db) (fence : LeaseFence) (now : Time) : Bool :=
  (db.leases fence.leaseName).any (fun l =>
    l.holderId == fence.holderId && l.fenceToken == fence.fenceToken && decide (now < l.expiresAt))

/-! ## Candidate transactions -/

/-- `submit_candidate`. -/
def submitCandidate (delta : DeltaObject) (now : Time) (policy : CandidatePolicy) (db : Db) :
    Option (CandidateSubmission × Db) :=
  match db.metadata with
  | none => none
  | some metadata =>
    match CandidateSubmission.refusedWhileInactive metadata.releasedAt metadata.pausedAt with
    | some refused => some (refused, db)
    | none =>
      match db.state with
      | none => none
      | some state =>
        match db.activeExecution with
        | some active => some (.executionReserved active.reservation.proposalId, db)
        | none =>
          match gateCandidateSubmission state.commitment db.queue delta
              policy.maxPendingCandidates with
          | some refused => some (refused, db)
          | none =>
            let db₁ := db.supersedeParked delta.nonce now policy.archiveSuperseded
            match db₁.insertDelta delta with
            | none => some (.conflict, db₁)
            | some db₂ => some (.submitted, db₂.setPendingFlag true)

/-- `request_candidate_abandon`. -/
def requestCandidateAbandon (nonce : Nonce) (newCommitment : Commitment) (now : Time) (db : Db) :
    Option (AbandonIntent × Db) :=
  match db.metadata with
  | none => none
  | some _ =>
    match db.owningExecution nonce with
    | some r => some (.ownedByExecution r.reservation.proposalId, db)
    | none =>
      match db.rowAt nonce with
      | none => some (.notCandidate, db)
      | some r =>
        if r.delta.status.isCandidate ∧ r.delta.newCommitment = some newCommitment then
          match r.delta.status.abandonRequestedAt with
          | some requestedAt => some (.alreadyRequested requestedAt, db)
          | none =>
            some (.recorded, db.updateRow nonce (·.isCandidate) (·.withAbandonRequested now) id)
        else some (.notCandidate, db)

/-- `restore_superseded`: write an archived delta back as the canonical row at
its nonce. A parked row there is archived first. -/
def restoreSuperseded (delta : DeltaObject) (now : Time) (db : Db) : Option Db :=
  if (db.rowAt delta.nonce).all (·.delta.status.isParked) then
    if db.superseded.any isArchived then
      let kept := { db with superseded := db.superseded.filter (fun s => !isArchived s) }
      ((kept.archiveParkedDelta delta.nonce now).deleteRow delta.nonce (fun _ => true)).insertDelta delta
    else none
  else none
where
  /-- Archived under the delta's nonce, base and post commitment; an absent
  post commitment matches nothing, as in SQL. -/
  isArchived (s : SupersededDelta) : Bool :=
    s.delta.nonce == delta.nonce && s.delta.prevCommitment == delta.prevCommitment &&
      s.delta.newCommitment == delta.newCommitment && delta.newCommitment.isSome

/-- Flip the row the promotion targets, or restore it; `none` when no row is
the one the pass verified. -/
def writeCanonical (p : CandidatePromotion) (db : Db) : Option Db :=
  match p.source with
  | .superseded => db.restoreSuperseded p.delta p.now
  | kind =>
    match db.rowAt p.delta.nonce with
    | none => none
    | some r =>
      if kind.matches r.delta.status then
        some (db.updateRow p.delta.nonce kind.matches (fun _ => p.delta.status)
          (fun _ => p.delta.newCommitment))
      else none

/-- `promote_candidate`. -/
def promoteCandidate (leaseCurrent : Bool) (p : CandidatePromotion) (db : Db) :
    Option (PromoteWrite × Db) :=
  match db.metadata with
  | none => none
  | some _ =>
    if leaseCurrent then
      match db.writeCanonical p with
      | none => some (.notCandidate, db)
      | some db₁ =>
        match db₁.state with
        | none => some (.staleBase, db)
        | some state =>
          if state.commitment = p.delta.prevCommitment ∨ state.commitment = p.state.commitment then
            let db₂ := { db₁ with state := some p.state.asStored }
            let db₃ := match p.newAuth with
              | some auth => db₂.setMetadata (fun m => { m with auth := auth })
              | none => db₂
            match db₃.commitPromotedExecution p.delta.nonce p.state.commitment p.now with
            | none => none
            | some (settled, db₄) => some (.applied settled, db₄.clearPendingFlagIfNone)
          else some (.staleBase, db)
    else some (.staleLease, db)

/-- `discard_candidate`. -/
def discardCandidate (leaseCurrent : Bool) (nonce : Nonce) (kind : DeltaStatusKind) (db : Db) :
    Option (CanonicalWrite × Db) :=
  match db.metadata with
  | none => none
  | some _ =>
    if leaseCurrent then
      if kind = .candidate ∧ (db.owningExecution nonce).isSome then
        some (.protectedByExecution, db)
      else
        match db.rowAt nonce with
        | none => some (.notCandidate, db)
        | some r =>
          if r.delta.status.kind = kind then
            some (.applied, (db.deleteRow nonce (·.kind == kind)).clearPendingFlagIfNone)
          else some (.notCandidate, db)
    else some (.staleLease, db)

/-- `update_candidate_status`. The stored abandon request is re-read under the
row lock: a retained flip over it is refused, and a candidate status without
one takes it over. -/
def updateCandidateStatus (leaseCurrent : Bool) (nonce : Nonce) (status : DeltaStatus) (db : Db) :
    Option (CanonicalWrite × Db) :=
  match db.metadata with
  | none => none
  | some _ =>
    if leaseCurrent then
      if status.kind ≠ .candidate ∧ (db.owningExecution nonce).isSome then
        some (.protectedByExecution, db)
      else
        match db.rowAt nonce with
        | none => some (.notCandidate, db)
        | some r =>
          if r.delta.status.isCandidate then
            let stored := r.delta.status.abandonRequestedAt
            if status.kind = .retained ∧ stored.isSome then some (.notCandidate, db)
            else some (.applied, db.updateRow nonce (·.isCandidate)
              (fun _ => status.withAbandonRequestPreservedFrom stored) id)
          else some (.notCandidate, db)
    else some (.staleLease, db)

end Db
end Guardian
