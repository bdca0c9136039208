import Guardian.Jobs.Canonicalization

/- The reconcile pass (`jobs/canonicalization/reconciliation.rs`): parked and
   archived rows whose transaction landed late. When the chain has moved past
   the stored state, the pass looks for recoverable rows that lead there, one
   row or a path of them, recomputes every hop, and promotes each row by the
   kind it was read as. -/
namespace Guardian

open Interleaving Service

/-- `abandoned_cutoff`. -/
def abandonedCutoff (cfg : Config) (now : Time) : Time := now - cfg.retainedTtlSeconds

def reconcileWarmPeriodSeconds : Nat := 900
def reconcileMaxBackoffSeconds : Nat := 600
def reconcileBackoffBaseSeconds : Nat := 60

/-- `reconcile_backoff_seconds`. -/
def reconcileBackoffSeconds (ageSeconds : Nat) : Nat :=
  if ageSeconds < reconcileWarmPeriodSeconds then 0
  else min (reconcileBackoffBaseSeconds * 2 ^ min (ageSeconds / reconcileWarmPeriodSeconds) 32)
    reconcileMaxBackoffSeconds

/-- `reconcile_due`. -/
def reconcileDue (ageSeconds intervalSeconds : Nat) : Bool :=
  let backoff := reconcileBackoffSeconds ageSeconds
  backoff == 0 || decide (ageSeconds % backoff < max intervalSeconds 1)

structure Recoverable where
  ageSeconds : Nat
  delta : DeltaObject
  source : PromotableKind
  deriving DecidableEq, Repr

namespace Recoverable

/-- Try rows in order, each (nonce, post commitment) once. -/
def tryRows (visit : Recoverable → Commitment → Option (List Recoverable)) :
    List (Nonce × Commitment) → List Recoverable → Option (List Recoverable)
  | _, [] => none
  | tried, row :: rows =>
    match row.delta.newCommitment with
    | none => tryRows visit tried rows
    | some next =>
      if (row.delta.nonce, next) ∈ tried then tryRows visit tried rows
      else (visit row next).or (tryRows visit ((row.delta.nonce, next) :: tried) rows)

/-- The rows that extend a path ending at `running`: those that end at the
chain's head first, then by nonce. -/
def chaining (onChain running : Commitment) (live path : List Recoverable) : List Recoverable :=
  (live.filter (fun row => row.delta.prevCommitment == running && row.delta.newCommitment.isSome &&
    path.all (·.delta.nonce != row.delta.nonce))).insertionSort (fun a b =>
      let missesA := decide (a.delta.newCommitment ≠ some onChain)
      let missesB := decide (b.delta.newCommitment ≠ some onChain)
      missesA < missesB ∨ (missesA = missesB ∧ a.delta.nonce.toNat ≤ b.delta.nonce.toNat))

/-- The depth-first search of `select_recoverable_path`; `depth` is how many
rows the path may still take. -/
def walk (onChain : Commitment) (live : List Recoverable) :
    Nat → Commitment → List Recoverable → Option (List Recoverable)
  | 0, _, _ => none
  | depth + 1, running, path =>
    tryRows (fun row next =>
      if next = onChain then some (path ++ [row]) else walk onChain live depth next (path ++ [row]))
      [] (chaining onChain running live path)

/-- `select_recoverable_path`. -/
def selectRecoverablePath (stored onChain : Commitment) (live : List Recoverable) :
    List Recoverable :=
  (walk onChain live live.length stored []).getD []

end Recoverable

namespace Processor
variable (net : Network) (cfg : Config) (fence : LeaseFence)

/-- Recompute a path hop by hop; `none` when a row does not apply or does not
reproduce its stored post commitment. -/
def reconstructPath : StateJson → List Recoverable → Option (List (Recoverable × AppliedState))
  | _, [] => some []
  | base, row :: path =>
    match net.applyDelta base row.delta.deltaPayload with
    | none => none
    | some applied =>
      if row.delta.newCommitment = some applied.commitment then
        (reconstructPath applied.stateJson path).map ((row, applied) :: ·)
      else none

/-- Promote the hops of a path in order. -/
def promotePath : List (Recoverable × AppliedState) → Service Unit
  | [] => return ()
  | (row, applied) :: path => do
    canonicalizeVerifiedDelta net cfg fence row.delta applied row.source
    promotePath path

/-- `reconcile_recoverable_path`. -/
def reconcileRecoverablePath (currentState : StateObject) (onChain : Commitment)
    (path : List Recoverable) : Service Unit := do
  match reconstructPath net currentState.stateJson path with
  | none => return ()
  | some reconstructed =>
    if (reconstructed.getLast?).any (·.2.commitment = onChain) then
      promotePath net cfg fence reconstructed

/-- The first single row that explains the chain's head. -/
def reconcileSingleRow (currentState : StateObject) (onChain : Commitment) :
    List Recoverable → Service Unit
  | [] => return ()
  | row :: rows =>
    if row.delta.prevCommitment = currentState.commitment ∧
        row.delta.newCommitment.all (· = onChain) then
      match net.applyDelta currentState.stateJson row.delta.deltaPayload with
      | none => reconcileSingleRow currentState onChain rows
      | some applied =>
        if applied.commitment = onChain then
          canonicalizeVerifiedDelta net cfg fence row.delta applied row.source
        else reconcileSingleRow currentState onChain rows
    else reconcileSingleRow currentState onChain rows

/-- `reconcile_chain_advance`. -/
def reconcileChainAdvance (currentState : StateObject) (onChain : Commitment)
    (live : List Recoverable) : Service Unit :=
  let path := Recoverable.selectRecoverablePath currentState.commitment onChain live
  if 1 < path.length then reconcileRecoverablePath net cfg fence currentState onChain path
  else reconcileSingleRow net cfg fence currentState onChain live

/-- The recoverable rows still within retention; a retained row past it is
dropped, an abandoned one skipped. -/
def expireRecoverable (now : Time) (firstError : Option GuardianError) :
    List DeltaObject → Service (List Recoverable × Option GuardianError)
  | [] => return ([], firstError)
  | delta :: rest => do
    let age := now - delta.status.timestamp
    if cfg.retainedTtlSeconds ≤ age then
      if delta.status.isClientAbandoned then expireRecoverable now firstError rest
      else
        match ← absorb (removeDelta net fence delta .retained) with
        | .ok .staleLease => fail .storageError
        | .ok _ => expireRecoverable now firstError rest
        | .error e => expireRecoverable now (firstError.or (some e)) rest
    else
      let (live, error) ← expireRecoverable now firstError rest
      return (⟨age, delta, .of delta.status⟩ :: live, error)

/-- Finish the proposal cleanup a parked row may have left. -/
def cleanUpProposals : List Recoverable → Service Unit
  | [] => return ()
  | row :: rows => do
    if row.source = .retained then
      let _ ← deleteMatchingProposal net row.delta
    cleanUpProposals rows

/-- `reconcile_account`; `interval` is the pass interval where the probe backs
off. -/
def reconcileAccount (interval : Option Nat) : Service Unit := do
  let candidates ← orFail (query (.pullCandidateDeltas false)) .storageError
  if !candidates.isEmpty then return ()
  let now ← now
  let cutoff := abandonedCutoff cfg now
  let recoverable ← orFail (query (.pullRecoverableDeltas cutoff)) .storageError
  let _ ← write (.pruneSupersededDeltas cutoff)
  let superseded ← orFail (query (.pullSupersededDeltas cutoff)) .storageError
  let (rows, firstError) ← expireRecoverable net cfg fence now none recoverable
  let live := rows ++ superseded.map (fun a => ⟨now - a.supersededAt, a.delta, .superseded⟩)
  match (live.map (·.ageSeconds)).min? with
  | none => finish firstError
  | some minAge =>
    if interval.any (fun i => !reconcileDue minAge i) then finish firstError
    else
      cleanUpProposals net live
      let currentState ← pullState .storageError
      match ← node (.verifyCommitment currentState.commitment .singleAttempt) with
      | some (.mismatch onChain) =>
        reconcileChainAdvance net cfg fence currentState onChain live
        finish firstError
      | _ => finish firstError
where
  finish : Option GuardianError → Service Unit
    | some e => fail e
    | none => return ()

/-- `process_reconcile_pass`, where its page holds this account. -/
def processReconcilePass (interval : Option Nat) : Service Unit := do
  if ← flag then return ()
  let _ ← absorb (reconcileAccount net cfg fence interval)

end Processor
end Guardian
