import Guardian.Service

/- Client submissions in candidate mode (`services/push_delta.rs`, `services/
   candidate_chain.rs`, `services/delta_commit.rs`) and abandon requests
   (`services/abandon_candidate.rs`).

   Everything a push reads can be stale by the time it commits: the storage
   transaction evaluates the gate again under the account lock. What the push
   alone establishes is that the new delta leads from its base to its post
   commitment. -/
namespace Guardian

open Interleaving Service

namespace CandidateChain

/-- `CandidateChain::load`. -/
def load (storedCommitment : Commitment) : Service (List DeltaObject) := do
  let candidates ← orFail (query (.pullCandidateDeltas false)) .storageError
  if (firstUnchainedCandidate storedCommitment (candidates.map .of)).isSome then
    fail .conflictPendingDelta
  return candidates

/-- `CandidateChain::load_for_admission`: when the queue does not chain, or is
empty under a base the state does not have, the state is read again. -/
def loadForAdmission (currentState : StateObject) (base : Commitment) :
    Service (StateObject × List DeltaObject) := do
  let first ← absorb (load currentState.commitment)
  let recheck : Bool := match first with
    | .error e => decide (e = .conflictPendingDelta)
    | .ok chain => chain.isEmpty && decide (base ≠ currentState.commitment)
  if recheck then
    match ← orFail (query .pullStateHead) .storageError with
    | none => fail .storageError
    | some stored =>
      if stored.commitment = currentState.commitment then
        match first with
        | .error e => fail e
        | .ok chain => return (currentState, chain)
      else
        let fresh ← pullState .storageError
        let chain ← load fresh.commitment
        return (fresh, chain)
  else
    match first with
    | .error e => fail e
    | .ok chain => return (currentState, chain)

/-- `tail_commitment`. -/
def tailCommitment (candidates : List DeltaObject) (storedCommitment : Commitment) : Commitment :=
  ((candidates.getLast?).bind (·.newCommitment)).getD storedCommitment

/-- Replay payloads onto a state. -/
def replay (net : Network) : StateJson → Commitment → List Payload → Option (StateJson × Commitment)
  | stateJson, commitment, [] => some (stateJson, commitment)
  | stateJson, _, payload :: payloads =>
    match net.applyDelta stateJson payload with
    | none => none
    | some applied => replay net applied.stateJson applied.commitment payloads

/-- `reconstruct_tail`: the state behind the queue, and the tail's nonce. -/
def reconstructTail (net : Network) (currentState : StateObject) (candidates : List DeltaObject) :
    Service (Commitment × StateJson × Option Nonce) := do
  match candidates.getLast? with
  | none => return (currentState.commitment, currentState.stateJson, none)
  | some tail =>
    match replay net currentState.stateJson currentState.commitment
        (candidates.map (·.deltaPayload)) with
    | none => fail .conflictPendingDelta
    | some (stateJson, commitment) =>
      if commitment = tailCommitment candidates currentState.commitment then
        return (commitment, stateJson, some tail.nonce)
      else fail .conflictPendingDelta

/-- `ensure_tail_keeps_auth`. -/
def ensureTailKeepsAuth (net : Network) (currentState : StateObject) (tailJson : StateJson)
    (tailNonce : Option Nonce) : Service Unit := do
  match tailNonce with
  | none => return ()
  | some _ =>
    match net.accountAuthBinding currentState.stateJson, net.accountAuthBinding tailJson with
    | some canonical, some tail => if tail = canonical then return () else fail .conflictPendingDelta
    | _, _ => fail .storageError

end CandidateChain

/-- `lookup_matching_proposal`, and the multisig check that uses it. -/
def authorizePush (net : Network) (tailJson : StateJson) (delta : DeltaObject) : Service Unit := do
  let proposal ← match net.deltaProposalId delta.nonce delta.deltaPayload with
    | none => pure none
    | some id => orFail (query (.pullDeltaProposal id)) .storageError
  if net.authorizes tailJson delta.deltaPayload proposal then return ()
  else fail .authenticationFailed

/-- The queue checks of `push_delta`: the chain loads, has room, and the delta
extends its tail in base and in nonce. -/
def queueChecks (cfg : Config) (delta : DeltaObject) (currentState : StateObject) :
    Service (StateObject × List DeltaObject) := do
  let (currentState, chain) ← CandidateChain.loadForAdmission currentState delta.prevCommitment
  if chain.length ≥ cfg.maxPendingCandidates then fail .conflictPendingDelta
  match classifyChainPosition currentState.commitment (chain.map .of) delta.prevCommitment with
  | .competing => fail .conflictPendingDelta
  | .unrelated => fail (.commitmentMismatch currentState.commitment delta.prevCommitment)
  | .tail =>
    if (chain.getLast?).any (fun tail => delta.nonce ≤ tail.nonce) then fail .conflictPendingDelta
    return (currentState, chain)

/-- `push_delta` in candidate mode. -/
def pushDelta (net : Network) (cfg : Config) (delta : DeltaObject) : Service Unit := do
  let metadata ← accountMetadata
  if ← flag then fail .authenticationFailed
  ensureAccountActive metadata
  let currentState ← pullState .storageError
  match ← orFail (query .loadActiveExecution) .storageError with
  | some active => fail (.executionConflict active.reservation.proposalId)
  | none =>
    let (currentState, chain) ← CandidateChain.loadForAdmission currentState delta.prevCommitment
    if chain.length ≥ cfg.maxPendingCandidates then fail .conflictPendingDelta
    match classifyChainPosition currentState.commitment (chain.map .of) delta.prevCommitment with
    | .competing => fail .conflictPendingDelta
    | .unrelated => fail (.commitmentMismatch currentState.commitment delta.prevCommitment)
    | .tail =>
      if (chain.getLast?).any (fun tail => delta.nonce ≤ tail.nonce) then fail .conflictPendingDelta
      let (tailCommitment, tailJson, tailNonce) ←
        CandidateChain.reconstructTail net currentState chain
      CandidateChain.ensureTailKeepsAuth net currentState tailJson tailNonce
      authorizePush net tailJson delta
      match net.verifyAndApplyDelta tailCommitment tailJson delta.deltaPayload with
      | none => fail .invalidDelta
      | some applied =>
        -- a chained delta must be labelled with the account nonce it produces
        if !chain.isEmpty && applied.nonce.any (· != delta.nonce.toNat) then
          fail .conflictPendingDelta
        let now ← now
        commit applied.commitment now
where
  /-- `DeltaCommitStrategy::Candidate`: one write covers the row and the flag. -/
  commit (newCommitment : Commitment) (now : Time) : Service Unit := do
    let candidate : DeltaObject :=
      { delta with newCommitment := some newCommitment, status := .newCandidate now }
    match ← orFail (write (.submitCandidate candidate now cfg.candidatePolicy)) .storageError with
    | .submitted => return ()
    | .conflict => fail .conflictPendingDelta
    | .commitmentMismatch expected => fail (.commitmentMismatch expected delta.prevCommitment)
    | .executionReserved proposalId => fail (.executionConflict proposalId)
    | .paused pausedAt => fail (.accountPaused pausedAt)
    | .released releasedAt => fail (.accountReleased releasedAt)

theorem queueChecks_bind {α : Type} (cfg : Config) (delta : DeltaObject)
    (currentState : StateObject) (f : StateObject × List DeltaObject → Service α) :
    queueChecks cfg delta currentState >>= f = (do
      let (currentState, chain) ← CandidateChain.loadForAdmission currentState delta.prevCommitment
      if chain.length ≥ cfg.maxPendingCandidates then fail .conflictPendingDelta
      match classifyChainPosition currentState.commitment (chain.map .of) delta.prevCommitment with
      | .competing => fail .conflictPendingDelta
      | .unrelated => fail (.commitmentMismatch currentState.commitment delta.prevCommitment)
      | .tail =>
        if (chain.getLast?).any (fun tail => delta.nonce ≤ tail.nonce) then
          fail .conflictPendingDelta
        f (currentState, chain)) := by
  unfold queueChecks
  rw [bind_assoc]
  refine congrArg _ (funext fun loaded => ?_)
  dsimp only
  split
  · rfl
  split
  · rfl
  · rfl
  split
  · rfl
  · rfl

/-- A push is its queue checks, then its delta, then the storage transaction. -/
theorem pushDelta_eq (net : Network) (cfg : Config) (delta : DeltaObject) :
    pushDelta net cfg delta = (do
      let metadata ← accountMetadata
      if ← flag then fail .authenticationFailed
      ensureAccountActive metadata
      let currentState ← pullState .storageError
      match ← orFail (query .loadActiveExecution) .storageError with
      | some active => fail (.executionConflict active.reservation.proposalId)
      | none =>
        let (currentState, chain) ← queueChecks cfg delta currentState
        let (tailCommitment, tailJson, tailNonce) ←
          CandidateChain.reconstructTail net currentState chain
        CandidateChain.ensureTailKeepsAuth net currentState tailJson tailNonce
        authorizePush net tailJson delta
        match net.verifyAndApplyDelta tailCommitment tailJson delta.deltaPayload with
        | none => fail .invalidDelta
        | some applied =>
          if !chain.isEmpty && applied.nonce.any (· != delta.nonce.toNat) then
            fail .conflictPendingDelta
          let now ← now
          pushDelta.commit cfg delta applied.commitment now) := by
  unfold pushDelta
  simp only [queueChecks_bind]

/-! ## Abandon -/

/-- The row an abandon request targets. The request may name the transaction by
its proposal id; `carries` is `carries_transaction` for it. -/
def findTarget (nonce : Nonce) (named : Option (DeltaObject → Bool)) : Service DeltaObject := do
  let live ← orFail (query (.pullDelta nonce)) .storageError
  match named with
  | none =>
    match live with
    | some delta => return delta
    | none => fail .deltaNotFound
  | some carries =>
    match live.filter carries with
    | some delta => return delta
    | none =>
      let archived ← orFail (query (.pullSupersededDeltas 0)) .storageError
      let matching := archived.filter (fun a => a.delta.nonce == nonce && carries a.delta)
      match matching.foldl latest none with
      | some newest => return newest.delta
      | none =>
        let live ← orFail (query (.pullDelta nonce)) .storageError
        match live.filter carries with
        | some delta => return delta
        | none => fail .deltaNotFound
where
  /-- `max_by_key(superseded_at)`, which keeps the last of equals. -/
  latest : Option SupersededDelta → SupersededDelta → Option SupersededDelta
    | none, a => some a
    | some best, a => if best.supersededAt ≤ a.supersededAt then some a else some best

inductive AbandonState where
  | pending
  | abandoned
  | retained
  deriving DecidableEq, Repr

/-- `resolve`: an answer for a row already settled, or the candidate's post
commitment. -/
def resolveTarget (delta : DeltaObject) : Service (AbandonState ⊕ Commitment) := do
  match delta.newCommitment with
  | none => fail .storageError
  | some commitment =>
    match delta.status with
    | .candidate .. => return .inr commitment
    | .canonical _ => fail .candidateLanded
    | .retained .. => return .inl .retained
    | .discarded _ (some .clientAbandoned) => return .inl .abandoned
    | _ => fail .deltaNotFound

/-- `abandon_candidate`. -/
def abandonCandidate (net : Network) (nonce : Nonce) (named : Option (DeltaObject → Bool)) :
    Service AbandonState := do
  let metadata ← accountMetadata
  if ← flag then fail .authenticationFailed
  ensureAccountActive metadata
  let delta ← findTarget nonce named
  match ← resolveTarget delta with
  | .inl answer => return answer
  | .inr commitment =>
    let execution ← orFail (query .loadActiveExecution) .storageError
    match execution.filter (·.ownsCandidate nonce) with
    | some r => fail (.executionConflict r.reservation.proposalId)
    | none =>
      let currentState ← pullState .stateNotFound
      match net.applyDelta currentState.stateJson delta.deltaPayload with
      | none => fail .invalidDelta
      | some applied =>
        match ← node (.verifyCommitment applied.commitment .configured) with
        | some .match => fail .candidateLanded
        | _ =>
          let now ← now
          match ← orFail (write (.requestCandidateAbandon nonce commitment now)) .storageError with
          | .recorded => return .pending
          | .alreadyRequested _ => return .pending
          | .ownedByExecution proposalId => fail (.executionConflict proposalId)
          | .notCandidate =>
            let delta ← findTarget nonce named
            if delta.newCommitment = some commitment then
              match ← resolveTarget delta with
              | .inl answer => return answer
              | .inr _ => fail .deltaNotFound
            else fail .deltaNotFound

end Guardian
