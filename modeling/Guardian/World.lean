import Guardian.Lib.Interleaving
import Guardian.Network
import Guardian.Storage.PostgresExecution

/- The shared world of the server's processes and the calls they make of it.

   A call is one thing the environment does for a process: a query, a statement
   or unfenced transaction, one half of a fenced transaction, a lease call, a
   node call, a look at the clock. Each executes atomically; what the process
   does between two calls is its own. A fenced transaction is two calls: it
   takes the account lock and validates its lease (`begin`), and commits later,
   so a holder superseded in between still finishes its write, as
   `storage/mod.rs` says it may.

   What the caller does not decide is in the `Choice` of the step: whether a
   database call failed before or after its effect, the block a node served a
   read at, how many rows of a shared page belonged to this account.

   `Ghost` records what the theorems speak of and the code does not store: which
   deltas were acknowledged, what a pass read, which transactions were sent. No
   call reads it. -/
namespace Guardian

open Interleaving

/-! ## Calls -/

/-- Where the fast pass continues: the last candidate's status timestamp, how
this account's id compares with that candidate's, and its nonce. -/
structure RecentCandidateCursor where
  lastStatusTimestamp : Time
  account : Ordering
  lastNonce : Nonce
  deriving DecidableEq, Repr

inductive RpcReadMode where
  | singleAttempt
  | configured
  deriving DecidableEq, Repr

inductive Query where
  | metadataGet
  | listWithPendingCandidates
  | pullState
  | pullStateHead
  /-- `forPass` when a pass reads the queue to write it back. -/
  | pullCandidateDeltas (forPass : Bool)
  | hasPendingCandidate
  | pullRecentCandidateDeltas (cutoff : Time) (cursor : Option RecentCandidateCursor)
  | pullRecoverableDeltas (abandonedCutoff : Time)
  | pullSupersededDeltas (since : Time)
  | pullDelta (nonce : Nonce)
  | pullDeltaProposal (id : String)
  | loadActiveExecution

/-- What a query answers when it does not fail. -/
abbrev Query.Answer : Query → Type
  | .metadataGet => Option AccountMetadata
  | .listWithPendingCandidates => Bool
  | .pullState => Option StateObject
  | .pullStateHead => Option StateHead
  | .pullCandidateDeltas _ => List DeltaObject
  | .hasPendingCandidate => Bool
  | .pullRecentCandidateDeltas _ _ => List DeltaObject
  | .pullRecoverableDeltas _ => List DeltaObject
  | .pullSupersededDeltas _ => List SupersededDelta
  | .pullDelta _ => Option DeltaObject
  | .pullDeltaProposal _ => Option DeltaObject
  | .loadActiveExecution => Option ExecutionRecord

/-- Statements and unfenced transactions. -/
inductive Stmt where
  | submitCandidate (delta : DeltaObject) (now : Time) (policy : CandidatePolicy)
  | requestCandidateAbandon (nonce : Nonce) (newCommitment : Commitment) (now : Time)
  /-- `created` when the request inserted the account's metadata itself. -/
  | submitState (state : StateObject) (created : Bool)
  | replaceState (state : StateObject) (expected : Commitment)
  | createMetadata (metadata : AccountMetadata)
  | setMetadata (metadata : AccountMetadata)
  | clearPendingCandidateIfNone
  | setReleasedIfState (now : Time) (expected : Commitment)
  | clearReleasedIfState (expected : Commitment)
  | setPause (now : Time)
  | clearPause
  | submitDeltaProposal (record : ProposalRecord)
  | deleteDeltaProposal (id : String)
  | pruneSupersededDeltas (cutoff : Time)

abbrev Stmt.Answer : Stmt → Type
  | .submitCandidate .. => CandidateSubmission
  | .requestCandidateAbandon .. => AbandonIntent
  | .replaceState .. => StateReplace
  | .createMetadata _ => Bool
  | .setReleasedIfState .. => Db.ReleaseTransition
  | .clearReleasedIfState _ => Db.ClearTransition
  | _ => Unit

/-- Whether the statement waits for the account's metadata row. -/
def Stmt.locks : Stmt → Bool
  | .submitState .. | .replaceState .. | .createMetadata _ | .submitDeltaProposal _
  | .deleteDeltaProposal _ | .pruneSupersededDeltas _ => false
  | _ => true

/-- What a fenced transaction writes. `snapshot` is the row the pass computed
the write from; the transaction itself is keyed by nonce and kind alone. -/
inductive Tx where
  | promoteCandidate (p : CandidatePromotion)
  | discardCandidate (nonce : Nonce) (kind : DeltaStatusKind) (snapshot : DeltaObject)
  | updateCandidateStatus (nonce : Nonce) (status : DeltaStatus) (snapshot : DeltaObject)
  | createExecutionReservation (proposalId : String) (fence : LeaseFence) (leaseExpiresAt : Time)
  | renewExecutionReservation (fence : LeaseFence) (leaseExpiresAt : Time) (phase : ExecutionPhase)
  | claimExecutionReservation (expected claimant : LeaseFence) (leaseExpiresAt : Time)
  | admitExecutionCandidate (admission : CandidateAdmission)
  | settlePromotedExecution (fence : LeaseFence) (now : Time)
  | resolveExecution (resolution : ExecutionResolution) (boundaryCrossed : Bool)

abbrev Tx.Answer : Tx → Type
  | .promoteCandidate _ => PromoteWrite
  | .discardCandidate .. => CanonicalWrite
  | .updateCandidateStatus .. => CanonicalWrite
  | .createExecutionReservation .. => ReservationWrite
  | .renewExecutionReservation .. => ReservationUpdate
  | .claimExecutionReservation .. => ClaimWrite
  | .admitExecutionCandidate _ => AdmissionWrite
  | .settlePromotedExecution .. => SettleWrite
  | .resolveExecution .. => ResolveWrite

inductive LeaseCall where
  | tryAcquire (name holderId : String) (ttl : Time)
  | renew (fence : LeaseFence) (ttl : Time)
  | release (fence : LeaseFence)

abbrev LeaseCall.Answer : LeaseCall → Type
  | .tryAcquire .. => Option LeaseRow
  | .renew .. => Bool
  | .release _ => Unit

/-- What a node answers to a transaction (`SubmitOutcome`). -/
inductive SubmitOutcome where
  | accepted
  | rejected
  | notProcessed
  deriving DecidableEq, Repr

inductive NodeCall where
  | verifyCommitment (expected : Commitment) (mode : RpcReadMode)
  | observeCommitment (expected : Commitment)
  | findTransactionEndingAt (target : Commitment) (fromBlock : Nat)
  | chainTip
  | submitTransaction (proposalId : String) (attempt : Nat) (evidence : SubmissionEvidence)

abbrev NodeCall.Answer : NodeCall → Type
  | .verifyCommitment .. => StateVerification
  | .observeCommitment _ => StateVerification × Nat
  | .findTransactionEndingAt .. => TransactionSearch
  | .chainTip => Nat
  | .submitTransaction .. => SubmitOutcome

/-- A call of a process. -/
inductive Op where
  | query (q : Query)
  | write (s : Stmt)
  | begin (fence : LeaseFence)
  | commit (tx : Tx)
  | lease (l : LeaseCall)
  | node (n : NodeCall)
  | now
  /-- Something the process finds out elsewhere: the pass deadline, a consumed
  request timestamp, the prover's answer. -/
  | flag
  /-- The process returns; nothing it read is in use any more. -/
  | returns

/-- The answer of a call; a database, lease or node call may fail. -/
abbrev Res : Op → Type
  | .query q => Option q.Answer
  | .write s => Option s.Answer
  | .begin _ => Unit
  | .commit tx => Option tx.Answer
  | .lease l => Option l.Answer
  | .node n => Option n.Answer
  | .now => Time
  | .flag => Bool
  | .returns => Unit

/-! ## The world -/

/-- A status update, parking or discard a pass applied: the row it was computed
from, and the row it changed. -/
structure PassWrite where
  snapshot : DeltaObject
  row : DeltaRow
  deriving DecidableEq, Repr

structure SentTransaction where
  proposalId : String
  attempt : Nat
  evidence : SubmissionEvidence
  deriving DecidableEq, Repr

/-- History variables. -/
structure Ghost where
  /-- Client deltas whose submission committed. -/
  acked : List DeltaObject
  /-- Every candidate that was ever queued. -/
  admitted : List DeltaObject
  /-- Rows a process has read for a pass and not yet returned from. -/
  held : List (Nat × DeltaObject)
  passWrites : List PassWrite
  /-- Retained and archived rows that were deleted, with the instant their
  retention counted from. -/
  dropped : List (DeltaObject × Time)
  /-- The `deltas.id` of the row an attempt's admission inserted. -/
  executionRows : List ((String × Nat) × Nat)
  sent : List SentTransaction
  /-- Attempts a node refused. -/
  rejected : List (String × Nat)
  /-- Every commitment the state row has had. -/
  storedLog : List Commitment
  /-- The `/configure` that wrote the state row last and has not written its signers
  since; none where a promotion wrote it. -/
  stateWriter : Option Nat
  /-- The request that inserted the metadata row, and the signers it claimed. -/
  createdBy : Option (Nat × Auth)
  /-- A commitment was stored that the chain did not have. -/
  offChainStored : Bool
  /-- A `/configure` was vouched for by a node behind the tip. -/
  staleVouch : Bool
  /-- A candidate was queued whose nonce does not fit the column's order. -/
  wideNonce : Bool

def Ghost.empty : Ghost where
  acked := []
  admitted := []
  held := []
  passWrites := []
  dropped := []
  executionRows := []
  sent := []
  rejected := []
  storedLog := []
  stateWriter := none
  createdBy := none
  offChainStored := false
  staleVouch := false
  wideNonce := false

structure World where
  db : Db
  chain : Chain
  clock : Time
  /-- The process in a fenced transaction, and whether its lease was current. -/
  lock : Option (Nat × Bool)
  /-- Processes that returned or crashed. -/
  finished : List Nat
  ghost : Ghost

/-- Nothing is stored, and the account is at its first position. -/
def World.initial (first : Commitment) (tip : Nat) (clock : Time) : World where
  db := .empty
  chain := ⟨first, [], tip⟩
  clock := clock
  lock := none
  finished := []
  ghost := .empty

inductive Fault where
  | none
  /-- The call failed and did nothing. -/
  | refused
  /-- The call took effect and its answer was lost. -/
  | lost
  deriving DecidableEq, Repr

/-- How a step resolves what its process does not decide. -/
structure Choice where
  fault : Fault := .none
  /-- The block a node answers at. -/
  block : Nat := 0
  flag : Bool := false
  /-- Rows of this account in a page all accounts share. -/
  rows : Nat := 0
  submit : SubmitOutcome := .accepted
  deriving DecidableEq, Repr

end Guardian
