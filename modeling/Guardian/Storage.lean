import Guardian.Metadata

/- The storage contract (`server/src/storage/mod.rs`): what the backends store
   and answer, and the candidate-queue admission gate both of them evaluate
   under their account lock.

   The gate's spec is `gate_eq_none_iff`: a submission may be written exactly
   when the queue has room, still chains from the stored state, and the delta
   extends its tail in base and in nonce.

   Account ids, timestamps nothing compares and error texts are left out. -/
namespace Guardian

/-- `str::eq_ignore_ascii_case`. -/
def eqIgnoreAsciiCase (a b : String) : Bool := a.toLower == b.toLower

/-! ## Stored records -/

/-- `StateObject`: the state document, its commitment, and its nonce where one
was extracted. -/
structure StateObject where
  stateJson : StateJson
  commitment : Commitment
  nonce : Option Nat
  deriving DecidableEq, Repr

/-- The state as its row reads back: `nonce_column` stores a nonce past
`i64::MAX` as unknown. -/
def StateObject.asStored (s : StateObject) : StateObject :=
  { s with nonce := s.nonce.filter (· < 2^63) }

@[simp] theorem StateObject.asStored_commitment (s : StateObject) :
    s.asStored.commitment = s.commitment := rfl

@[simp] theorem StateObject.asStored_stateJson (s : StateObject) :
    s.asStored.stateJson = s.stateJson := rfl

inductive DeltaStatusKind where
  | pending
  | candidate
  | canonical
  | retained
  | discarded
  deriving DecidableEq, Repr

/-- The `status_kind` column. -/
def DeltaStatus.kind : DeltaStatus → DeltaStatusKind
  | .pending .. => .pending
  | .candidate .. => .candidate
  | .canonical _ => .canonical
  | .retained .. => .retained
  | .discarded .. => .discarded

/-- A row a resubmission at its nonce may supersede: retained, or discarded by
its client. -/
def DeltaStatus.isParked (s : DeltaStatus) : Bool := s.isRetained || s.isClientAbandoned

/-- A row of `superseded_deltas`. -/
structure SupersededDelta where
  delta : DeltaObject
  supersededAt : Time
  deriving DecidableEq, Repr

structure LeaseFence where
  leaseName : String
  holderId : String
  fenceToken : Nat
  deriving DecidableEq, Repr

/-! ## Outcomes -/

inductive CanonicalWrite where
  | applied
  | staleLease
  | notCandidate
  | protectedByExecution
  deriving DecidableEq, Repr

inductive AbandonIntent where
  | recorded
  | alreadyRequested (requestedAt : Time)
  | notCandidate
  | ownedByExecution (proposalId : String)
  deriving DecidableEq, Repr

inductive PromoteWrite where
  | applied (settledExecution : Bool)
  | staleLease
  | notCandidate
  | staleBase
  deriving DecidableEq, Repr

inductive CandidateSubmission where
  | submitted
  | conflict
  | commitmentMismatch (expected : Commitment)
  | executionReserved (proposalId : String)
  | paused (pausedAt : Time)
  | released (releasedAt : Time)
  deriving DecidableEq, Repr

/-- The refusal for an account that reads as paused or released; released wins
over paused. -/
def CandidateSubmission.refusedWhileInactive :
    Option Time → Option Time → Option CandidateSubmission
  | some releasedAt, _ => some (.released releasedAt)
  | none, some pausedAt => some (.paused pausedAt)
  | none, none => none

inductive StateReplace where
  | replaced
  | stateMoved (current : Commitment)
  deriving DecidableEq, Repr

/-- The exact lifecycle row a promotion is allowed to flip. -/
inductive PromotableKind where
  | candidate
  | retained
  | clientAbandoned
  | superseded
  deriving DecidableEq, Repr

/-- The kind of the row a verification read, from its status. -/
def PromotableKind.of (status : DeltaStatus) : PromotableKind :=
  if status.isRetained then .retained
  else if status.isClientAbandoned then .clientAbandoned
  else .candidate

/-- Whether a stored status still is the row the promotion targets; for an
archived row, whether the row now at its nonce may be replaced by it. -/
def PromotableKind.matches : PromotableKind → DeltaStatus → Bool
  | .candidate, s => s.isCandidate
  | .retained, s => s.isRetained
  | .clientAbandoned, s => s.isClientAbandoned
  | .superseded, s => s.isParked

/-- How a submission treats the queue and the parked row it supersedes. -/
structure CandidatePolicy where
  maxPendingCandidates : Nat
  archiveSuperseded : Bool
  deriving DecidableEq, Repr

/-- Everything a promotion commits as one unit. -/
structure CandidatePromotion where
  state : StateObject
  delta : DeltaObject
  newAuth : Option Auth
  now : Time
  source : PromotableKind
  deriving DecidableEq, Repr

/-! ## The admission gate -/

structure QueuedCandidate where
  nonce : Nonce
  prevCommitment : Commitment
  newCommitment : Option Commitment
  deriving DecidableEq, Repr

def QueuedCandidate.of (delta : DeltaObject) : QueuedCandidate :=
  ⟨delta.nonce, delta.prevCommitment, delta.newCommitment⟩

/-- Index of the first queued candidate that breaks the chain from the running
commitment. -/
def firstUnchainedCandidate (stored : Commitment) : List QueuedCandidate → Option Nat
  | [] => none
  | candidate :: queue =>
    match candidate.newCommitment with
    | some next =>
      if candidate.prevCommitment = stored then
        (firstUnchainedCandidate next queue).map (· + 1)
      else some 0
    | none => some 0

inductive ChainPosition where
  | tail
  | competing
  | unrelated
  deriving DecidableEq, Repr

def classifyChainPosition (stored : Commitment) (queue : List QueuedCandidate)
    (prevCommitment : Commitment) : ChainPosition :=
  match queue.getLast? with
  | none => if prevCommitment = stored then .tail else .unrelated
  | some tail =>
    if tail.newCommitment = some prevCommitment then .tail
    else if prevCommitment = stored ∨
        queue.any (fun candidate => candidate.newCommitment == some prevCommitment) then .competing
    else .unrelated

/-- The candidate-queue admission gate: `none` means the submission may be
written. -/
def gateCandidateSubmission (stored : Commitment) (queue : List QueuedCandidate)
    (delta : DeltaObject) (maxPendingCandidates : Nat) : Option CandidateSubmission :=
  if queue.length ≥ max maxPendingCandidates 1 then some .conflict
  else if (firstUnchainedCandidate stored queue).isSome then some .conflict
  else
    match classifyChainPosition stored queue delta.prevCommitment with
    | .competing => some .conflict
    | .unrelated => some (.commitmentMismatch stored)
    | .tail =>
      match queue.getLast? with
      | some tail => if delta.nonce ≤ tail.nonce then some .conflict else none
      | none => none

theorem gate_ne_submitted {stored : Commitment} {queue : List QueuedCandidate}
    {delta : DeltaObject} {maxPending : Nat} :
    gateCandidateSubmission stored queue delta maxPending ≠ some .submitted := by
  unfold gateCandidateSubmission
  intro h
  repeat' split at h
  all_goals cases h

/-- The queue chains from `stored`: each base is the post-state before it. -/
def Chained : Commitment → List QueuedCandidate → Prop
  | _, [] => True
  | stored, c :: queue => c.prevCommitment = stored ∧ ∃ next, c.newCommitment = some next ∧
      Chained next queue

theorem firstUnchainedCandidate_eq_none {stored : Commitment} {queue : List QueuedCandidate} :
    firstUnchainedCandidate stored queue = none ↔ Chained stored queue := by
  induction queue generalizing stored with
  | nil => simp [firstUnchainedCandidate, Chained]
  | cons c queue ih =>
    unfold firstUnchainedCandidate Chained
    split
    · next next hnext =>
      split
      · next hprev => simp [hnext, hprev, ih]
      · next hprev => simp [hprev]
    · next hnext => simp [hnext]

/-- The delta builds on the chain's tail: on the newest post-state with a
larger nonce, or on the stored state when nothing is queued. -/
def ExtendsTail (stored : Commitment) (queue : List QueuedCandidate) (delta : DeltaObject) : Prop :=
  match queue.getLast? with
  | none => delta.prevCommitment = stored
  | some tail => tail.newCommitment = some delta.prevCommitment ∧ tail.nonce < delta.nonce

theorem classifyChainPosition_eq_tail (stored : Commitment) (queue : List QueuedCandidate)
    (prev : Commitment) : classifyChainPosition stored queue prev = .tail ↔
      match queue.getLast? with
      | none => prev = stored
      | some tail => tail.newCommitment = some prev := by
  unfold classifyChainPosition
  cases queue.getLast? with
  | none => by_cases h : prev = stored <;> simp [h]
  | some tail =>
    by_cases h : tail.newCommitment = some prev
    · simp [h]
    · simp only [h, if_false, iff_false]
      split <;> simp

/-- What the gate lets through. -/
theorem gate_eq_none_iff {stored : Commitment} {queue : List QueuedCandidate}
    {delta : DeltaObject} {maxPending : Nat} :
    gateCandidateSubmission stored queue delta maxPending = none ↔
      queue.length < max maxPending 1 ∧ Chained stored queue ∧ ExtendsTail stored queue delta := by
  unfold gateCandidateSubmission
  by_cases hlen : queue.length ≥ max maxPending 1
  · simp only [if_pos hlen, reduceCtorEq, false_iff]
    exact fun h => absurd h.1 (not_lt.mpr hlen)
  rw [if_neg hlen]
  by_cases hchain : (firstUnchainedCandidate stored queue).isSome
  · simp only [if_pos hchain, reduceCtorEq, false_iff]
    intro h
    rw [firstUnchainedCandidate_eq_none.mpr h.2.1] at hchain
    cases hchain
  rw [if_neg hchain]
  have hchained : Chained stored queue := by
    rw [← firstUnchainedCandidate_eq_none]
    simpa using hchain
  have hpos := classifyChainPosition_eq_tail stored queue delta.prevCommitment
  simp only [hchained, not_le.mp hlen, true_and, ExtendsTail]
  cases hc : classifyChainPosition stored queue delta.prevCommitment with
  | tail =>
    rw [hc] at hpos
    cases hl : queue.getLast? with
    | none => simpa [hl] using hpos
    | some tail =>
      have ht : tail.newCommitment = some delta.prevCommitment := by simpa [hl] using hpos
      by_cases hn : delta.nonce ≤ tail.nonce
      · simp [ht, hn, BitVec.not_lt.mpr hn]
      · simp [ht, hn, BitVec.not_le.mp hn]
  | competing =>
    rw [hc] at hpos
    cases hl : queue.getLast? <;> simp [hl] at hpos ⊢ <;> intro h <;> exact absurd h hpos
  | unrelated =>
    rw [hc] at hpos
    cases hl : queue.getLast? <;> simp [hl] at hpos ⊢ <;> intro h <;> exact absurd h hpos

end Guardian
