import Guardian.Lib.Table
import Guardian.Storage.Execution

/- The filesystem backend's lifecycle writes (`server/src/storage/filesystem.rs`).
   A delta is one file, named by its nonce. Every operation here holds
   `delta_write_lock` from its first read to its last write, so operations do
   not overlap; but it writes several files, one after the other, and can end
   between any two. An operation is therefore read as a `Plan`: the writes it
   makes, in order, and its answer once all are made.

   The lease fence is absent: this backend is one process. -/
namespace Guardian

/-- The admission an execution recorded before it wrote its candidate. -/
structure InterruptedAdmission where
  proposalId : String
  attempt : Nat
  nonce : Nonce
  deriving DecidableEq, Repr

/-- The files of one account; of a proposal, its id. -/
structure Files where
  deltas : Table (fun d : DeltaObject => d.nonce.toNat)
  superseded : List SupersededDelta
  state : Option StateObject
  metadata : Option AccountMetadata
  executions : List ExecutionRecord
  admission : Option InterruptedAdmission
  proposals : List String

/-- The writes of an operation, and its answer after them. -/
structure Plan (α : Type) where
  writes : List (Files → Files)
  answer : α

namespace Plan
variable {α : Type}

/-- Nothing is written. -/
def reply (a : α) : Plan α := ⟨[], a⟩

/-- The files after the first `n` writes. -/
def run (plan : Plan α) (n : Nat) (files : Files) : Files :=
  (plan.writes.take n).foldl (fun f write => write f) files

/-- The answer, unless the operation ended before its last write. -/
def answers (plan : Plan α) (n : Nat) : Option α :=
  if plan.writes.length ≤ n then some plan.answer else none

end Plan

namespace Files

/-- `pull_delta`. -/
def pullDelta (files : Files) (nonce : Nonce) : Option DeltaObject := files.deltas.find? nonce.toNat

/-- `delete_delta`. -/
def deleteDelta (nonce : Nonce) (files : Files) : Files :=
  { files with deltas := files.deltas.delete (·.nonce == nonce) }

/-- `write_delta_holding_lock`: the file is replaced. -/
def writeDelta (delta : DeltaObject) (files : Files) : Files :=
  { files with deltas := (files.deltas.delete (·.nonce == delta.nonce)).insert delta }

/-- `archive_delta_holding_lock`. -/
def archiveDelta (delta : DeltaObject) (supersededAt : Time) (files : Files) : Files :=
  { files with superseded := files.superseded ++ [⟨delta, supersededAt⟩] }

/-- One archived file is removed. -/
def removeArchived (archived : SupersededDelta) (files : Files) : Files :=
  { files with superseded := files.superseded.erase archived }

def writeState (state : StateObject) (files : Files) : Files := { files with state := some state }

def setMetadata (f : AccountMetadata → AccountMetadata) (files : Files) : Files :=
  { files with metadata := files.metadata.map f }

/-- `pull_candidate_deltas`. -/
def candidates (files : Files) : List DeltaObject := files.deltas.select (·.status.isCandidate)

/-- `release_pending_flag_if_queue_empty`. -/
def releasePendingFlag (files : Files) : Files :=
  if files.candidates.isEmpty then
    files.setMetadata (fun m => { m with hasPendingCandidate := false })
  else files

def setPendingFlag (files : Files) : Files :=
  files.setMetadata (fun m => { m with hasPendingCandidate := true })

/-- `candidate_owner`. -/
def candidateOwner (files : Files) (nonce : Nonce) : Option String :=
  (files.executions.find? (·.ownsCandidate nonce)).map (·.reservation.proposalId)

/-- The record `commit_promoted_execution` settles. -/
def promotedExecution (files : Files) (nonce : Nonce) (promoted : Commitment) :
    Option ExecutionRecord :=
  files.executions.find? (fun r => r.ownsCandidate nonce &&
    r.evidence.any (fun e => eqIgnoreAsciiCase e.expectedCommitment promoted))

/-- `commit_promoted_execution`. -/
def commitPromotedExecution (nonce : Nonce) (promoted : Commitment) (now : Time) (files : Files) :
    Files :=
  match files.promotedExecution nonce promoted with
  | none => files
  | some record =>
    { files with executions := files.executions.map (fun r =>
        if r.isAttempt record.reservation.proposalId record.reservation.attempt then
          r.settleAs .committed now else r) }

/-! ## Operations -/

/-- `request_candidate_abandon`. -/
def requestCandidateAbandon (files : Files) (nonce : Nonce) (newCommitment : Commitment)
    (now : Time) : Plan AbandonIntent :=
  match files.candidateOwner nonce with
  | some proposalId => .reply (.ownedByExecution proposalId)
  | none =>
    match files.pullDelta nonce with
    | none => .reply .notCandidate
    | some delta =>
      if delta.status.isCandidate = false ∨ delta.newCommitment ≠ some newCommitment then
        .reply .notCandidate
      else
        match delta.status.abandonRequestedAt with
        | some requestedAt => .reply (.alreadyRequested requestedAt)
        | none =>
          ⟨[writeDelta { delta with status := delta.status.withAbandonRequested now }], .recorded⟩

/-- `submit_candidate`; `none` without a stored state. -/
def submitCandidate (files : Files) (delta : DeltaObject) (now : Time) (policy : CandidatePolicy) :
    Option (Plan CandidateSubmission) :=
  match files.metadata.bind (fun m =>
      CandidateSubmission.refusedWhileInactive m.releasedAt m.pausedAt) with
  | some refused => some (.reply refused)
  | none =>
    match files.state with
    | none => none
    | some state =>
      match files.executions.find? (·.isActive) with
      | some active => some (.reply (.executionReserved active.reservation.proposalId))
      | none =>
        match gateCandidateSubmission state.commitment (files.candidates.map .of) delta
            policy.maxPendingCandidates with
        | some refused => some (.reply refused)
        | none =>
          match files.pullDelta delta.nonce with
          | none => some ⟨[writeDelta delta, setPendingFlag], .submitted⟩
          | some existing =>
            if existing.status.isParked then
              let archive := if policy.archiveSuperseded then [archiveDelta existing now] else []
              some ⟨archive ++ [deleteDelta delta.nonce, writeDelta delta, setPendingFlag],
                .submitted⟩
            else some (.reply .conflict)

/-- The writes a promotion ends with: the state, the signers, the row, the
flag and the execution. -/
def promotionWrites (p : CandidatePromotion) (cleanUp : List (Files → Files)) :
    List (Files → Files) :=
  let auth := match p.newAuth with
    | some auth => [setMetadata (fun m => { m with auth := auth })]
    | none => []
  [writeState p.state] ++ auth ++ [writeDelta p.delta] ++ cleanUp ++
    [releasePendingFlag, commitPromotedExecution p.delta.nonce p.state.commitment p.now]

/-- Archived under the promotion's nonce, base and post commitment. -/
def isArchived (delta : DeltaObject) (s : SupersededDelta) : Bool :=
  s.delta.nonce == delta.nonce && s.delta.prevCommitment == delta.prevCommitment &&
    s.delta.newCommitment == delta.newCommitment

/-- `restore_superseded_holding_lock`: the archived copies found at the start are
removed one by one. -/
def restoreSuperseded (files : Files) (p : CandidatePromotion) : Option (Plan PromoteWrite) :=
  let current := files.pullDelta p.delta.nonce
  let restored := files.superseded.filter (isArchived p.delta)
  if current.any (fun existing => !p.source.matches existing.status) then some (.reply .notCandidate)
  else if restored.isEmpty then some (.reply .notCandidate)
  else
    match files.state with
    | none => none
    | some state =>
      if state.commitment ≠ p.delta.prevCommitment then some (.reply .staleBase)
      else
        let archive := match current with
          | some existing => [archiveDelta existing p.now]
          | none => []
        some ⟨archive ++ promotionWrites p (restored.map removeArchived),
          .applied (files.promotedExecution p.delta.nonce p.state.commitment).isSome⟩

/-- `promote_candidate`. -/
def promoteCandidate (files : Files) (p : CandidatePromotion) : Option (Plan PromoteWrite) :=
  if p.source = .superseded then files.restoreSuperseded p
  else
    match files.pullDelta p.delta.nonce with
    | none => some (.reply .notCandidate)
    | some existing =>
      if p.source.matches existing.status then
        match files.state with
        | none => none
        | some state =>
          if state.commitment ≠ p.state.commitment ∧ state.commitment ≠ p.delta.prevCommitment then
            some (.reply .staleBase)
          else some ⟨promotionWrites p [],
            .applied (files.promotedExecution p.delta.nonce p.state.commitment).isSome⟩
      else some (.reply .notCandidate)

/-- `replace_state`. -/
def replaceState (files : Files) (state : StateObject) (expected : Commitment) :
    Option (Plan StateReplace) :=
  match files.state with
  | none => none
  | some current =>
    if current.commitment ≠ expected then some (.reply (.stateMoved current.commitment))
    else some ⟨[writeState state], .replaced⟩

/-- `discard_candidate`: a file that is gone counts as discarded. -/
def discardCandidate (files : Files) (nonce : Nonce) (kind : DeltaStatusKind) :
    Plan CanonicalWrite :=
  if kind = .candidate ∧ (files.candidateOwner nonce).isSome then .reply .protectedByExecution
  else if (files.pullDelta nonce).any (fun existing => existing.status.kind != kind) then
    .reply .notCandidate
  else ⟨[deleteDelta nonce, releasePendingFlag], .applied⟩

/-- `update_candidate_status`. -/
def updateCandidateStatus (files : Files) (nonce : Nonce) (status : DeltaStatus) :
    Plan CanonicalWrite :=
  match files.pullDelta nonce with
  | none => .reply .notCandidate
  | some delta =>
    if delta.status.isCandidate = false then .reply .notCandidate
    else if status.isCandidate = false ∧ (files.candidateOwner nonce).isSome then
      .reply .protectedByExecution
    else if status.isRetained ∧ delta.status.abandonRequestedAt.isSome then .reply .notCandidate
    else
      let merged := status.withAbandonRequestPreservedFrom delta.status.abandonRequestedAt
      ⟨[writeDelta { delta with status := merged }], .applied⟩

/-! ## What a write leaves -/

variable {files : Files} {delta : DeltaObject} {nonce : Nonce}

theorem find?_deleteDelta (files : Files) (nonce : Nonce) :
    (files.deltas.delete (·.nonce == nonce)).find? nonce.toNat = none := by
  refine Table.find?_eq_none.mpr fun d hd hn => ?_
  have hne := (Table.mem_delete.mp hd).2
  rw [BitVec.eq_of_toNat_eq hn] at hne
  simp at hne

theorem pullDelta_writeDelta_self : (files.writeDelta delta).pullDelta delta.nonce = some delta :=
  Table.find?_insert_self (find?_deleteDelta files delta.nonce)

theorem pullDelta_deleteDelta_ne {other : Nonce} (h : other ≠ nonce) :
    (files.deleteDelta nonce).pullDelta other = files.pullDelta other := by
  refine Table.find?_delete fun d _ hd => ?_
  rw [BitVec.eq_of_toNat_eq hd]
  simpa using h

theorem pullDelta_writeDelta_ne (h : nonce ≠ delta.nonce) :
    (files.writeDelta delta).pullDelta nonce = files.pullDelta nonce := by
  have hkey : delta.nonce.toNat ≠ nonce.toNat := fun heq => h (BitVec.eq_of_toNat_eq heq).symm
  have hinsert := Table.find?_insert_ne (find?_deleteDelta files delta.nonce) hkey
  exact hinsert.trans (pullDelta_deleteDelta_ne h)

theorem pullDelta_eq_some (h : files.pullDelta nonce = some delta) : delta.nonce = nonce :=
  BitVec.eq_of_toNat_eq (Table.find?_eq_some.mp h).2

end Files
end Guardian
