import Guardian.Storage

/- Guardian executions as stored (`server/src/storage/execution.rs`,
   `shared/src/execution.rs`). An attempt is a reservation, the evidence
   recorded before its transaction is sent (the no-retry boundary), and its
   outcome. The three tables share the key (proposal, attempt), and every
   writer of the later two finds the reservation first, so an attempt is kept
   as one `ExecutionRecord`. An attempt's number is a `u32`, an `i32` in the
   tables: a proposal has fewer than `2^31`. -/
namespace Guardian

inductive ExecutionPhase where
  | accepted
  | verified
  | acknowledged
  | executed
  | proving
  | proved
  | submissionCommitted
  | sent
  | reconciling
  deriving DecidableEq, Repr

inductive ExecutionFailureCode where
  | bindingMismatch
  | stateMismatch
  | requestCodec
  | protocolMismatch
  | requestInvalid
  | expirationReached
  | chainBehind
  | chainInconsistent
  | nodeUnavailable
  | foreignAccountUnavailable
  | insufficientFee
  | insufficientSignatures
  | provingFailed
  | sealingFailed
  | acknowledgementFailed
  | expirationBeyondHorizon
  | accountInadmissible
  | submissionRejected
  | submissionNotProcessed
  | candidateDiscarded
  | expired
  | leaseExpired
  | abandoned
  deriving DecidableEq, Repr

/-- Whether a failure after the boundary also deletes the proposal. -/
def ExecutionFailureCode.endsProposal : ExecutionFailureCode → Bool
  | .submissionRejected | .candidateDiscarded | .expired => true
  | _ => false

structure ExecutionReservation where
  proposalId : String
  attempt : Nat
  fence : LeaseFence
  leaseExpiresAt : Time
  phase : ExecutionPhase
  releasedAt : Option Time
  deriving DecidableEq, Repr

namespace ExecutionReservation

def isActive (r : ExecutionReservation) : Bool := r.releasedAt.isNone

def authorizes (r : ExecutionReservation) (fence : LeaseFence) (proposalId : String)
    (attempt : Nat) : Bool :=
  r.fence.holderId == fence.holderId && r.proposalId == proposalId && r.attempt == attempt

end ExecutionReservation

structure SubmissionEvidence where
  candidateNonce : Nonce
  transactionId : String
  expectedCommitment : Commitment
  referenceBlock : Nat
  expirationBlock : Nat
  baseCommitment : Commitment
  deriving DecidableEq, Repr

inductive ExecutionTerminal where
  | committed
  | failed (code : ExecutionFailureCode)
  deriving DecidableEq, Repr

structure ExecutionRecord where
  reservation : ExecutionReservation
  evidence : Option SubmissionEvidence
  outcome : Option ExecutionTerminal
  deriving DecidableEq, Repr

namespace ExecutionRecord

def boundaryCrossed (r : ExecutionRecord) : Bool := r.evidence.isSome

/-- The attempt this record is of. -/
def isAttempt (r : ExecutionRecord) (proposalId : String) (attempt : Nat) : Bool :=
  r.reservation.proposalId == proposalId && r.reservation.attempt == attempt

def isActive (r : ExecutionRecord) : Bool := r.reservation.isActive

/-- The record with its outcome and its reservation released. -/
def settleAs (r : ExecutionRecord) (terminal : ExecutionTerminal) (now : Time) : ExecutionRecord :=
  { r with outcome := some terminal, reservation := { r.reservation with releasedAt := some now } }

/-- The record renewed by its holder. -/
def renewTo (r : ExecutionRecord) (leaseExpiresAt : Time) (phase : ExecutionPhase) :
    ExecutionRecord :=
  { r with reservation := { r.reservation with leaseExpiresAt := leaseExpiresAt, phase := phase } }

/-- The record moved to another holder. -/
def claimFor (r : ExecutionRecord) (claimant : LeaseFence) (leaseExpiresAt : Time) :
    ExecutionRecord :=
  { r with reservation := { r.reservation with
      leaseExpiresAt := leaseExpiresAt
      fence := { r.reservation.fence with
        holderId := claimant.holderId, fenceToken := claimant.fenceToken } } }

/-- The record past the boundary. -/
def admitWith (r : ExecutionRecord) (evidence : SubmissionEvidence) : ExecutionRecord :=
  { r with
    evidence := some evidence
    reservation := { r.reservation with phase := .submissionCommitted } }

/-- An unresolved execution past its boundary owns the candidate at its
evidence's nonce. -/
def ownsCandidate (r : ExecutionRecord) (nonce : Nonce) : Bool :=
  r.isActive && r.evidence.any (·.candidateNonce == nonce)

end ExecutionRecord

structure CandidateAdmission where
  fence : LeaseFence
  proposalId : String
  attempt : Nat
  delta : DeltaObject
  evidence : SubmissionEvidence
  now : Time
  archiveParked : Bool
  deriving DecidableEq, Repr

def CandidateAdmission.evidenceDescribesCandidate (a : CandidateAdmission) : Bool :=
  a.evidence.candidateNonce == a.delta.nonce && a.evidence.baseCommitment == a.delta.prevCommitment

structure ExecutionResolution where
  proposalId : String
  attempt : Nat
  fence : LeaseFence
  failure : ExecutionFailureCode
  now : Time
  deriving DecidableEq, Repr

inductive ReservationWrite where
  | created (attempt : Nat)
  | alreadyReserved (proposalId : String)
  | candidateExists
  | proposalGone
  | staleLease
  deriving DecidableEq, Repr

inductive ReservationUpdate where
  | applied
  | staleLease
  | notActive
  deriving DecidableEq, Repr

inductive ClaimWrite where
  | claimed
  | claimSuperseded
  | staleLease
  | notActive
  deriving DecidableEq, Repr

inductive AdmissionWrite where
  | admitted
  | notAuthorized
  | candidateExists
  | nonceOccupied
  | staleBase
  | staleLease
  | accountInactive
  deriving DecidableEq, Repr

inductive ResolveWrite where
  | resolved
  | notAuthorized
  | alreadyResolved
  | staleLease
  | wrongSideOfBoundary
  deriving DecidableEq, Repr

inductive SettleWrite where
  | settled
  | notPromoted
  | staleLease
  | notActive
  deriving DecidableEq, Repr

/-- The highest attempt bounds every attempt. -/
theorem le_foldr_max {l : List Nat} {n : Nat} (h : n ∈ l) : n ≤ l.foldr max 0 := by
  induction l with
  | nil => cases h
  | cons a l ih =>
    rcases List.mem_cons.mp h with rfl | h'
    · exact Nat.le_max_left _ _
    · exact Nat.le_trans (ih h') (Nat.le_max_right _ _)

theorem foldr_max_mem {l : List Nat} (h : 0 < l.foldr max 0) : l.foldr max 0 ∈ l := by
  induction l with
  | nil => exact absurd h (Nat.lt_irrefl 0)
  | cons a l ih =>
    rw [List.foldr_cons] at h ⊢
    by_cases hle : l.foldr max 0 ≤ a
    · rw [Nat.max_eq_left hle]
      exact List.mem_cons_self
    · rw [Nat.max_eq_right (by omega)]
      exact List.mem_cons_of_mem _ (ih (by omega))

end Guardian
