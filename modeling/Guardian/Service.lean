import Guardian.Machine

/- The calls as the services write them. A procedure is a program that returns
   a value or an error, and `fail` is the `?` of the source: the procedure ends
   there, with whatever it wrote before. The errors of a service are the
   `GuardianError`s of `server/src/error.rs`.

   Fenced storage calls are written as the transaction they run: `begin`, then
   the commit. -/
namespace Guardian

open Interleaving

/-- The errors the modelled services return, with the data a caller resyncs
from; messages are left out. -/
inductive GuardianError where
  | storageError
  | networkError
  | rpcUnavailable
  | invalidInput
  | invalidDelta
  | accountNotFound
  | stateNotFound
  | deltaNotFound
  | candidateLanded
  | authenticationFailed
  | conflictPendingDelta
  | commitmentMismatch (expected actual : Commitment)
  | stateNotOnChain (submitted : Commitment)
  | executionConflict (blockingProposalId : String)
  | executionBusy
  | proposalNotFound
  | proposalNotReady
  | signatureSchemeNotAllowed (scheme : SignatureScheme)
  | accountPaused (pausedAt : Time)
  | accountReleased (releasedAt : Time)
  deriving DecidableEq, Repr

abbrev GProg := Prog Op Res

/-- A procedure: its calls, and a value or an error. -/
abbrev Proc (ε : Type) := ExceptT ε GProg

/-- A service or job step. -/
abbrev Service := Proc GuardianError

namespace Service
variable {ε ε' α : Type}

/-- The procedure ends with `e`. -/
def fail (e : ε) : Proc ε α := throw e

/-- One call; a failed one is an answer like any other. -/
def call (o : Op) : Proc ε (Res o) := ExceptT.lift (Prog.op o)

/-- A fallible call whose failure ends the procedure with `e`. -/
def orFail (x : Proc ε (Option α)) (e : ε) : Proc ε α := do
  match ← x with
  | some a => return a
  | none => fail e

/-- Run a step and go on whatever it returned. -/
def absorb (x : Proc ε α) : Proc ε' (Except ε α) := ExceptT.lift x.run

/-- `state.clock.now()`. -/
def now : Proc ε Time := call .now

def flag : Proc ε Bool := call .flag

def query (q : Query) : Proc ε (Option q.Answer) := call (.query q)

def write (s : Stmt) : Proc ε (Option s.Answer) := call (.write s)

def node (n : NodeCall) : Proc ε (Option n.Answer) := call (.node n)

def lease (l : LeaseCall) : Proc ε (Option l.Answer) := call (.lease l)

/-- A fenced transaction. -/
def fenced (fence : LeaseFence) (tx : Tx) : Proc ε (Option tx.Answer) := do
  call (.begin fence)
  call (.commit tx)

/-- `pull_state`: an absent row is an error too. -/
def pullState (e : ε) : Proc ε StateObject := do
  match ← orFail (query .pullState) e with
  | some state => return state
  | none => fail e

/-- The metadata of an account that must exist. -/
def accountMetadata : Service AccountMetadata := do
  match ← orFail (query .metadataGet) .storageError with
  | some metadata => return metadata
  | none => fail .accountNotFound

/-- `ensure_account_active_metadata`. -/
def ensureAccountActive (metadata : AccountMetadata) : Service Unit :=
  match metadata.releasedAt, metadata.pausedAt with
  | some releasedAt, _ => fail (.accountReleased releasedAt)
  | none, some pausedAt => fail (.accountPaused pausedAt)
  | none, none => return ()

/-! ## A procedure run alone -/

theorem eval_run_bind {β : Type} (answer : (o : Op) → Res o) (x : Proc ε α)
    (f : α → Proc ε β) : (x >>= f).run.eval answer =
      match x.run.eval answer with
      | .ok a => (f a).run.eval answer
      | .error e => .error e := by
  rw [ExceptT.run_bind, Prog.eval_bind]
  cases x.run.eval answer <;> rfl

theorem eval_absorb (answer : (o : Op) → Res o) (x : Proc ε α) :
    (absorb x : Proc ε' (Except ε α)).run.eval answer = .ok (x.run.eval answer) := by
  show (x.run >>= fun r => pure (Except.ok r)).eval answer = _
  rw [Prog.eval_bind]
  rfl

/-- What a procedure asks before it fails it asks whatever follows. -/
theorem made_run_bind {β : Type} (answer : (o : Op) → Res o) (x : Proc ε α) (f : α → Proc ε β) :
    (x >>= f).run.made answer = x.run.made answer ++
      match x.run.eval answer with
      | .ok a => (f a).run.made answer
      | .error _ => [] := by
  rw [ExceptT.run_bind, Prog.made_bind]
  cases x.run.eval answer <;> rfl

theorem made_absorb (answer : (o : Op) → Res o) (x : Proc ε α) :
    (absorb x : Proc ε' (Except ε α)).run.made answer = x.run.made answer := by
  show (x.run >>= fun r => pure (Except.ok r)).made answer = _
  rw [Prog.made_bind]
  exact List.append_nil _

end Service

/-- Server configuration (`builder`, `CanonicalizationConfig`). -/
structure Config where
  maxPendingCandidatesPerAccount : Nat
  maxRetries : Nat
  submissionGracePeriodSeconds : Nat
  divergenceConfirmations : Nat
  abandonQuarantineSeconds : Nat
  abandonQuarantineChecks : Nat
  retainedTtlSeconds : Nat
  fastPromotionMaxAgeSeconds : Nat
  executionLeaseTtl : Time
  executionHorizonBlocks : Nat
  allowedSchemes : List SignatureScheme
  guardianCommitment : SignatureScheme → String
  deriving Inhabited

namespace Config

/-- `candidate_chain::max_pending_candidates`. -/
def maxPendingCandidates (cfg : Config) : Nat := max cfg.maxPendingCandidatesPerAccount 1

/-- Archiving a superseded row is for a reconcile pass to find, which runs only
with retention. -/
def archivesSuperseded (cfg : Config) : Bool := decide (0 < cfg.retainedTtlSeconds)

def candidatePolicy (cfg : Config) : CandidatePolicy :=
  ⟨cfg.maxPendingCandidates, cfg.archivesSuperseded⟩

end Config
end Guardian
