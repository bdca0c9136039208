import Guardian.Storage.Execution
import Mathlib.Data.List.Nodup

/- Execution records of many accounts and their retention
   (`storage/postgres_execution.rs`, `storage/filesystem.rs`,
   `jobs/execution_retention/mod.rs`).

   The database keeps the reservation, the evidence and the outcome of an attempt
   in three tables keyed by account, proposal and attempt, and selects what it
   prunes with one query. `ORDER BY` leaves the order of equal instants open and
   `SKIP LOCKED` leaves out rows another sweep holds, so the selection is a
   relation. The filesystem keeps one list of records for each account and prunes
   account by account, in a loop that stops at the limit.

   Attempt numbers are counted without a bound here; in the source they are 32 bits
   wide, so a proposal is taken to have fewer attempts than that. -/
namespace Guardian.Retention

structure ExecutionOutcome where
  terminal : ExecutionTerminal
  resolvedAt : Time
  deriving DecidableEq, Repr

/-- `ExecutionRecord`, with the instant its outcome was resolved. -/
structure AttemptRecord where
  reservation : ExecutionReservation
  evidence : Option SubmissionEvidence
  outcome : Option ExecutionOutcome
  deriving DecidableEq, Repr

structure AttemptKey where
  accountId : String
  proposalId : String
  attempt : Nat
  deriving DecidableEq, Repr

namespace AttemptRecord

def key (accountId : String) (r : AttemptRecord) : AttemptKey :=
  ⟨accountId, r.reservation.proposalId, r.reservation.attempt⟩

/-- `finished_before`: released with an outcome resolved before the cutoff. -/
def finishedBefore (r : AttemptRecord) (cutoff : Time) : Bool :=
  !r.reservation.isActive && r.outcome.any (decide <| ·.resolvedAt < cutoff)

/-- A record of a new attempt. -/
def accepted (proposalId : String) (attempt : Nat) (fence : LeaseFence) (leaseExpiresAt : Time) :
    AttemptRecord :=
  { reservation := ⟨proposalId, attempt, fence, leaseExpiresAt, .accepted, none⟩
    evidence := none
    outcome := none }

end AttemptRecord

/-! ## The database -/

structure ReservationRow where
  accountId : String
  reservation : ExecutionReservation
  deriving DecidableEq, Repr

def ReservationRow.key (r : ReservationRow) : AttemptKey :=
  ⟨r.accountId, r.reservation.proposalId, r.reservation.attempt⟩

/-- The execution tables, the proposals and the accounts with a candidate, with
the schema's unique keys. -/
structure Tables where
  reservations : List ReservationRow
  submissions : List (AttemptKey × SubmissionEvidence)
  outcomes : List (AttemptKey × ExecutionOutcome)
  deltaProposals : List (String × String)
  candidates : List String
  uniqueReservations : (reservations.map ReservationRow.key).Nodup
  uniqueOutcomes : (outcomes.map Prod.fst).Nodup

namespace Tables
variable (t : Tables)

/-- The record the three tables hold of an attempt. -/
def Holds (accountId : String) (r : AttemptRecord) : Prop :=
  ⟨accountId, r.reservation⟩ ∈ t.reservations ∧
    r.evidence = t.submissions.lookup (r.key accountId) ∧
    r.outcome = t.outcomes.lookup (r.key accountId)

/-- `EXISTS (SELECT 1 FROM delta_proposals ..)`. -/
def proposalExists (accountId proposalId : String) : Bool :=
  t.deltaProposals.contains (accountId, proposalId)

/-- `EXISTS (SELECT 1 FROM execution_reservations n .. n.attempt > r.attempt)`. -/
def superseded (r : ReservationRow) : Bool :=
  t.reservations.any fun n =>
    n.accountId == r.accountId && n.reservation.proposalId == r.reservation.proposalId &&
      decide (r.reservation.attempt < n.reservation.attempt)

/-- The `WHERE` clause of `SELECT_PRUNABLE_ATTEMPTS`. -/
def prunable (locked : AttemptKey → Bool) (cutoff : Time) (r : ReservationRow)
    (o : AttemptKey × ExecutionOutcome) : Bool :=
  o.1 == r.key && decide (o.2.resolvedAt < cutoff) && r.reservation.releasedAt.isSome &&
    (!t.proposalExists r.accountId r.reservation.proposalId || t.superseded r) && !locked r.key

/-- The join of `SELECT_PRUNABLE_ATTEMPTS`, before its order and limit. -/
def prunableAttempts (locked : AttemptKey → Bool) (cutoff : Time) : List (AttemptKey × Time) :=
  t.reservations.flatMap fun r =>
    (t.outcomes.filter (t.prunable locked cutoff r)).map fun o => (r.key, o.2.resolvedAt)

/-- `SELECT_PRUNABLE_ATTEMPTS`: oldest first, up to the limit. -/
def Selects (locked : AttemptKey → Bool) (cutoff : Time) (limit : Nat)
    (attempts : List AttemptKey) : Prop :=
  ∃ ordered : List (AttemptKey × Time), ordered.Perm (t.prunableAttempts locked cutoff) ∧
    ordered.Pairwise (·.2 ≤ ·.2) ∧ attempts = (ordered.take limit).map Prod.fst

/-- `delete_attempts` of the three tables. -/
def deleteAttempts (attempts : List AttemptKey) : Tables where
  reservations := t.reservations.filter fun r => !attempts.contains r.key
  submissions := t.submissions.filter fun s => !attempts.contains s.1
  outcomes := t.outcomes.filter fun o => !attempts.contains o.1
  deltaProposals := t.deltaProposals
  candidates := t.candidates
  uniqueReservations := (List.filter_sublist.map _).nodup t.uniqueReservations
  uniqueOutcomes := (List.filter_sublist.map _).nodup t.uniqueOutcomes

/-- `prune_execution_records_tx`: the reservations it deleted, and the tables. -/
def PruneExecutionRecords (locked : AttemptKey → Bool) (cutoff : Time) (limit count : Nat)
    (t' : Tables) : Prop :=
  ∃ attempts, t.Selects locked cutoff limit attempts ∧ t' = t.deleteAttempts attempts ∧
    count = (t.reservations.filter fun r => attempts.contains r.key).length

/-- The attempts of one proposal. -/
def attempts (accountId proposalId : String) : List Nat :=
  (t.reservations.filter fun r =>
    r.accountId == accountId && r.reservation.proposalId == proposalId).map (·.reservation.attempt)

/-- `max(attempt) + 1`. -/
def nextAttempt (accountId proposalId : String) : Nat :=
  (t.attempts accountId proposalId).foldr max 0 + 1

theorem lt_nextAttempt {r : ReservationRow} (h : r ∈ t.reservations) :
    r.reservation.attempt < t.nextAttempt r.accountId r.reservation.proposalId := by
  refine Nat.lt_succ_of_le (le_foldr_max (List.mem_map.mpr ⟨r, List.mem_filter.mpr ⟨h, ?_⟩, rfl⟩))
  rw [beq_self_eq_true, beq_self_eq_true]
  rfl

/-- `create_execution_reservation_tx`, under the account's lock. -/
def createExecutionReservation (leaseCurrent : Bool) (accountId proposalId : String)
    (fence : LeaseFence) (leaseExpiresAt : Time) : ReservationWrite × Tables :=
  if leaseCurrent then
    match t.reservations.find? (fun r => r.accountId == accountId && r.reservation.isActive) with
    | some active => (.alreadyReserved active.reservation.proposalId, t)
    | none =>
      if t.candidates.contains accountId then (.candidateExists, t)
      else if t.proposalExists accountId proposalId then
        let attempt := t.nextAttempt accountId proposalId
        let row : ReservationRow :=
          ⟨accountId, (AttemptRecord.accepted proposalId attempt fence leaseExpiresAt).reservation⟩
        (.created attempt, { t with
          reservations := t.reservations ++ [row]
          uniqueReservations := by
            rw [List.map_append, List.map_singleton]
            refine List.nodup_append.mpr ⟨t.uniqueReservations, List.nodup_singleton _, ?_⟩
            intro key hkey key' hkey' heq
            obtain ⟨r, hr, rfl⟩ := List.mem_map.mp hkey
            rw [List.mem_singleton.mp hkey', ReservationRow.key, ReservationRow.key,
              AttemptKey.mk.injEq] at heq
            have hlt := t.lt_nextAttempt hr
            rw [heq.1, heq.2.1, heq.2.2] at hlt
            exact absurd hlt (Nat.lt_irrefl _) })
      else (.proposalGone, t)
  else (.staleLease, t)

end Tables

/-! ## The filesystem -/

/-- What reading a proposal's file finds. -/
inductive ProposalFile where
  | present
  | missing
  | unreadable
  deriving DecidableEq, Repr

/-- One account's directory; the records are absent where their file does not
parse. -/
structure AccountFiles where
  executions : Option (List AttemptRecord)
  proposal : String → ProposalFile
  hasPendingCandidate : Bool

/-- `write_executions`. -/
def AccountFiles.writeExecutions (files : AccountFiles) (records : List AttemptRecord) :
    AccountFiles :=
  { files with executions := some records }

/-- The accounts, as `fanout_account_ids` lists them. -/
structure Directory where
  accounts : List (String × AccountFiles)
  unique : (accounts.map Prod.fst).Nodup

namespace Directory

def Holds (d : Directory) (accountId : String) (r : AttemptRecord) : Prop :=
  ∃ files records, (accountId, files) ∈ d.accounts ∧ files.executions = some records ∧ r ∈ records

def HasProposal (d : Directory) (accountId proposalId : String) : Prop :=
  ∃ files, (accountId, files) ∈ d.accounts ∧ files.proposal proposalId = .present

end Directory

/-- The highest attempt of a proposal among the records. -/
def newestAttempt (records : List AttemptRecord) (proposalId : String) : Nat :=
  ((records.filter fun r => r.reservation.proposalId == proposalId).map
    (·.reservation.attempt)).foldr max 0

/-- Whether a proposal exists, through the cache of the loop. -/
def lookUpProposal (proposal : String → ProposalFile) (cache : List (String × Bool))
    (proposalId : String) : Option (Bool × List (String × Bool)) :=
  match cache.lookup proposalId with
  | some present => some (present, cache)
  | none =>
    match proposal proposalId with
    | .present => some (true, (proposalId, true) :: cache)
    | .missing => some (false, (proposalId, false) :: cache)
    | .unreadable => none

/-- The loop of `prune_account_executions`: the records kept and how many were
dropped. -/
def pruneLoop (proposal : String → ProposalFile) (newest : String → Nat) (cutoff : Time)
    (limit : Nat) : List AttemptRecord → List (String × Bool) → Nat →
    Option (List AttemptRecord × Nat)
  | [], _, dropped => some ([], dropped)
  | record :: rest, cache, dropped =>
    if limit ≤ dropped ∨ record.finishedBefore cutoff = false then
      (pruneLoop proposal newest cutoff limit rest cache dropped).map fun (kept, dropped) =>
        (record :: kept, dropped)
    else if record.reservation.attempt < newest record.reservation.proposalId then
      pruneLoop proposal newest cutoff limit rest cache (dropped + 1)
    else
      match lookUpProposal proposal cache record.reservation.proposalId with
      | none => none
      | some (true, cache) =>
        (pruneLoop proposal newest cutoff limit rest cache dropped).map fun (kept, dropped) =>
          (record :: kept, dropped)
      | some (false, cache) => pruneLoop proposal newest cutoff limit rest cache (dropped + 1)

/-- `prune_account_executions`: how many records it dropped and the files, or
nothing where one could not be read or written. -/
def pruneAccountExecutions (files : AccountFiles) (writable : Bool) (cutoff : Time) (limit : Nat) :
    Option (Nat × AccountFiles) := do
  let records ← files.executions
  let (kept, dropped) ← pruneLoop files.proposal (newestAttempt records) cutoff limit records [] 0
  if 0 < dropped then
    if writable then some (dropped, files.writeExecutions kept) else none
  else some (0, files)

/-- The loop of `prune_execution_records` over the accounts. -/
def pruneAccounts (writable : String → Bool) (cutoff : Time) (limit : Nat) :
    List (String × AccountFiles) → Nat → Nat × List (String × AccountFiles)
  | [], pruned => (pruned, [])
  | (accountId, files) :: rest, pruned =>
    if limit ≤ pruned then (pruned, (accountId, files) :: rest)
    else
      match pruneAccountExecutions files (writable accountId) cutoff (limit - pruned) with
      | some (count, files') =>
        let (total, rest') := pruneAccounts writable cutoff limit rest (pruned + count)
        (total, (accountId, files') :: rest')
      | none =>
        let (total, rest') := pruneAccounts writable cutoff limit rest pruned
        (total, (accountId, files) :: rest')

theorem map_fst_pruneAccounts (writable : String → Bool) (cutoff : Time) (limit : Nat)
    (accounts : List (String × AccountFiles)) (pruned : Nat) :
    (pruneAccounts writable cutoff limit accounts pruned).2.map Prod.fst =
      accounts.map Prod.fst := by
  induction accounts generalizing pruned with
  | nil => rfl
  | cons first rest ih =>
    obtain ⟨accountId, files⟩ := first
    rw [pruneAccounts]
    split
    · rfl
    · split
      · dsimp only
        rw [List.map_cons, List.map_cons, ih]
      · dsimp only
        rw [List.map_cons, List.map_cons, ih]

namespace Directory

/-- `prune_execution_records`. -/
def pruneExecutionRecords (d : Directory) (writable : String → Bool) (cutoff : Time)
    (limit : Nat) : Nat × Directory :=
  ((pruneAccounts writable cutoff limit d.accounts 0).1,
    { accounts := (pruneAccounts writable cutoff limit d.accounts 0).2
      unique := by rw [map_fst_pruneAccounts]; exact d.unique })

/-- The directory with one account's files replaced. -/
def setFiles (d : Directory) (accountId : String) (files : AccountFiles) : Directory where
  accounts := d.accounts.map fun entry => if entry.1 = accountId then (accountId, files) else entry
  unique := by
    have hids : (d.accounts.map fun entry =>
        if entry.1 = accountId then (accountId, files) else entry).map Prod.fst =
          d.accounts.map Prod.fst := by
      rw [List.map_map]
      refine List.map_congr_left fun entry _ => ?_
      simp only [Function.comp_apply]
      split
      · rename_i h
        exact h.symm
      · rfl
    rw [hids]
    exact d.unique

/-- `create_execution_reservation`: a failed read answers nothing. -/
def createExecutionReservation (d : Directory) (leaseLive : Bool) (accountId proposalId : String)
    (fence : LeaseFence) (leaseExpiresAt : Time) : Option (ReservationWrite × Directory) :=
  if leaseLive then
    match d.accounts.lookup accountId with
    | none => some (.proposalGone, d)
    | some files =>
      match files.executions with
      | none => none
      | some records =>
        match records.find? (·.reservation.isActive) with
        | some active => some (.alreadyReserved active.reservation.proposalId, d)
        | none =>
          if files.hasPendingCandidate then some (.candidateExists, d)
          else
            match files.proposal proposalId with
            | .missing => some (.proposalGone, d)
            | .unreadable => none
            | .present =>
              let attempt := newestAttempt records proposalId + 1
              let record := AttemptRecord.accepted proposalId attempt fence leaseExpiresAt
              some (.created attempt,
                d.setFiles accountId (files.writeExecutions (records ++ [record])))
  else some (.staleLease, d)

end Directory

/-! ## The sweep -/

/-- `RetentionSweep::run`: calls until one comes back short. -/
inductive Sweep {σ : Type} (call : σ → Nat → σ → Prop) (batch : Nat) : σ → Nat → σ → Prop where
  | short {s s' : σ} {count : Nat} (h : call s count s') (short : count < batch) :
      Sweep call batch s count s'
  | full {s s' s'' : σ} {count pruned : Nat} (h : call s count s') (full : batch ≤ count)
      (rest : Sweep call batch s' pruned s'') : Sweep call batch s (count + pruned) s''

end Guardian.Retention
