import Guardian.Jobs.ExecutionReconcile
import Guardian.Jobs.Reconciliation
import Guardian.Services.ConfigureAccount
import Guardian.Services.PushDelta

/- The whole server around one account: any number of requests, passes and
   workers, started at any time and interleaved call by call. Whether a pass
   runs on the replica that holds the lease, on one that lost it in the middle,
   or next to a second one is not fixed here: a pass is started with some fence,
   and its writes find out. -/
namespace Guardian

open Interleaving Service

/-- What a process can be started for. -/
inductive Request where
  | push (delta : DeltaObject)
  | abandon (nonce : Nonce) (named : Option (DeltaObject → Bool))
  | configure (params : ConfigureAccountParams)
  | submitProposal (record : ProposalRecord)
  | pause
  | unpause
  /-- The release sweep found the account under another guardian. -/
  | release (expected : Commitment)
  | fullPass (fence : LeaseFence)
  | recentPass (fence : LeaseFence) (maxAge : Nat) (pages : List (Option RecentCandidateCursor))
      (cursor : Option RecentCandidateCursor)
  | reconcilePass (fence : LeaseFence) (interval : Option Nat)
  | execute (params : RequestExecutionParams)
  /-- One renewal of an execution's heartbeat. -/
  | heartbeat (fence : LeaseFence) (phase : ExecutionPhase)
  | reconcileExecutions (holderId : String) (kind : PassKind) (holderRestarted : Bool)
  | acquireLease (name holderId : String) (ttl : Time)
  | renewLease (fence : LeaseFence) (ttl : Time)
  | releaseLease (fence : LeaseFence)

def Request.isConfigure : Request → Bool
  | .configure _ => true
  | _ => false

/-- Whether the request belongs to Guardian executions. -/
def Request.isExecution : Request → Bool
  | .execute _ | .heartbeat .. | .reconcileExecutions .. => true
  | _ => false

/-- The procedure a request runs. -/
def Request.program (net : Network) (cfg : Config) : Request → Service Unit
  | .push delta => pushDelta net cfg delta
  | .abandon nonce named => do let _ ← abandonCandidate net nonce named
  | .configure params => configureAccount net cfg params
  | .submitProposal record => do let _ ← write (.submitDeltaProposal record)
  | .pause => do let now ← now; let _ ← write (.setPause now)
  | .unpause => do let _ ← write .clearPause
  | .release expected => do let now ← now; let _ ← write (.setReleasedIfState now expected)
  | .fullPass fence => Processor.processFullPass net cfg fence
  | .recentPass fence maxAge pages cursor =>
    Processor.processRecentPass net cfg fence maxAge pages cursor
  | .reconcilePass fence interval => Processor.processReconcilePass net cfg fence interval
  | .execute params => requestExecution net cfg params
  | .heartbeat fence phase => do let _ ← Renewal.attempt cfg fence phase
  | .reconcileExecutions holderId kind holderRestarted =>
    Reconciler.pass cfg holderId kind holderRestarted
  | .acquireLease name holderId ttl => do let _ ← lease (.tryAcquire name holderId ttl)
  | .renewLease fence ttl => do let _ ← lease (.renew fence ttl)
  | .releaseLease fence => do let _ ← lease (.release fence)

/-- A process: its procedure, and then it returns. -/
def body (net : Network) (cfg : Config) (req : Request) : GProg Unit := do
  let _ ← (req.program net cfg).run
  Prog.op Op.returns

/-- Restrictions on the steps of a run. -/
abbrev RunGuard := Guard Op Request World Choice Act

/-- Runs in which every call leads from a world to one that `ok` allows. -/
def RunGuard.calls (ok : Nat → Op → World → World → Bool) : RunGuard where
  spawn := fun _ _ => true
  call := fun pid op ch w => (exec pid op ch w).all (fun x => ok pid op w x.2)
  act := fun _ _ => true

theorem RunGuard.calls_ok {ok : Nat → Op → World → World → Bool} {pid : Nat} {op : Op}
    {ch : Choice} {w w' : World} {r : Res op} (h : (RunGuard.calls ok).call pid op ch w = true)
    (hx : exec pid op ch w = some (r, w')) : ok pid op w w' = true := by
  simpa [RunGuard.calls, hx] using h

abbrev SystemConf := Conf Op Res World Request

/-- The configurations of the system, started from `w₀` under a restriction. -/
abbrev Reachable (net : Network) (cfg : Config) (G : RunGuard) (w₀ : World) :
    SystemConf → Prop := Reach (machine net) (body net cfg) G w₀

/-- A world the server can start in: the account is at its first position, it
is configured at it or not at all, and nothing was ever queued. -/
structure World.Fresh (net : Network) (w : World) : Prop where
  first : ∃ s, net.IsState s w.chain.first
  entries : w.chain.entries = []
  deltas : w.db.deltas = .empty
  superseded : w.db.superseded = []
  executions : w.db.executions = []
  finished : w.finished = []
  ghost : w.ghost = { Ghost.empty with storedLog := (w.db.state.map (·.commitment)).toList }
  state : ∀ {s}, w.db.state = some s →
    net.IsState s.stateJson s.commitment ∧ s.commitment = w.chain.first

theorem World.fresh_initial {net : Network} {s : StateJson} {first : Commitment} {tip : Nat}
    {clock : Time} (h : net.IsState s first) : (World.initial first tip clock).Fresh net :=
  ⟨⟨s, h⟩, rfl, rfl, rfl, rfl, rfl, rfl, fun h => by cases h⟩

/-- The account is configured at its first position. -/
def World.configured (state : StateObject) (auth : Auth) (tip : Nat) (clock : Time) : World :=
  let w := World.initial state.commitment tip clock
  { w with
    db := { w.db with state := some state, metadata := some ⟨auth, false, none, none⟩ }
    ghost := { w.ghost with storedLog := [state.commitment] } }

theorem World.fresh_configured {net : Network} {state : StateObject} {auth : Auth} {tip : Nat}
    {clock : Time} (h : net.IsState state.stateJson state.commitment) :
    (World.configured state auth tip clock).Fresh net :=
  ⟨⟨_, h⟩, rfl, rfl, rfl, rfl, rfl, rfl, fun hs => by cases hs; exact ⟨h, rfl⟩⟩

/-! ## A server to run -/

namespace Demo

/-- A configuration with retention, archiving and a queue of four. -/
def config : Config where
  maxPendingCandidatesPerAccount := 4
  maxRetries := 3
  submissionGracePeriodSeconds := 10
  divergenceConfirmations := 2
  abandonQuarantineSeconds := 10
  abandonQuarantineChecks := 2
  retainedTtlSeconds := 100
  fastPromotionMaxAgeSeconds := 60
  executionLeaseTtl := 30
  executionHorizonBlocks := 100
  allowedSchemes := [.falcon]
  guardianCommitment := fun _ => "guardian"

/-- The account over letters, configured at its first state. -/
def world (origin : Nat) : World :=
  .configured ⟨"s", "s", some origin⟩ (.midenFalconRpo ["old"]) 1 100

theorem isState_s (origin : Nat) : (Network.letters origin).IsState "s" "s" :=
  Network.letters_isState.mpr ⟨rfl, by decide, by decide +kernel⟩

theorem fresh_world (origin : Nat) : (world origin).Fresh (.letters origin) :=
  World.fresh_configured (isState_s origin)

/-- The account over letters, not configured yet. -/
def unconfigured : World := .initial "s" 1 100

theorem fresh_unconfigured : unconfigured.Fresh (.letters 0) := World.fresh_initial (isState_s 0)

/-- A client delta that appends `letter`. -/
def delta (nonce : Nonce) (base letter : String) : DeltaObject :=
  ⟨nonce, base, none, letter, .pending 0 "" []⟩

/-- `n` calls of a process, nothing failing and every read served at `block`. -/
def calls (pid n block : Nat) : List (Event Request Choice Act) :=
  List.replicate n (.run pid { block := block })

/-- The configuration events lead to from the start. -/
def after (origin : Nat) (G : RunGuard) (w₀ : World) (events : List (Event Request Choice Act)) :
    Option SystemConf :=
  runEvents (machine (.letters origin)) (body (.letters origin) config) G (.start w₀) events

theorem reachable_after (origin : Nat) (G : RunGuard) (w₀ : World)
    (events : List (Event Request Choice Act)) (test : SystemConf → Bool)
    (h : (after origin G w₀ events).any test = true) :
    ∃ c, Reachable (.letters origin) config G w₀ c ∧ test c = true := by
  obtain ⟨c, hc, ht⟩ := (Option.any_eq_true ..).mp h
  exact ⟨c, Reach.init.runEvents hc, ht⟩

/-- The same for a configuration and one further step. -/
theorem step_after (origin : Nat) (G : RunGuard) (w₀ : World)
    (events : List (Event Request Choice Act)) (e : Event Request Choice Act)
    (test : SystemConf → SystemConf → Bool)
    (h : (after origin G w₀ events).any (fun c =>
      (step (machine (.letters origin)) (body (.letters origin) config) G c e).any (test c)) = true) :
    ∃ c c', Reachable (.letters origin) config G w₀ c ∧
      step (machine (.letters origin)) (body (.letters origin) config) G c e = some c' ∧
      test c c' = true := by
  obtain ⟨c, hc, ht⟩ := reachable_after origin G w₀ events _ h
  obtain ⟨c', hs, ht⟩ := (Option.any_eq_true ..).mp ht
  exact ⟨c, c', hc, hs, ht⟩

/-- A push of the letter `t` at nonce 1, up to its submission. -/
def pushed : List (Event Request Choice Act) := .spawn 0 (.push (delta 1 "s" "t")) :: calls 0 8 1

/-- An execution of the letter `t` on `s`, to be included up to `expiration`. -/
def execution (expiration : Nat) : RequestExecutionParams where
  proposalId := "t"
  holderId := "worker"
  summaryPayload := "t"
  transactionId := "transaction"
  expirationBlock := expiration
  executorFailure := .provingFailed
  sendRetries := 3

/-- The proposal is submitted, and the worker that executes it makes `n` calls
against block 1: it is past its boundary after 57, and has sent after 64. -/
def executing (n expiration : Nat) : List (Event Request Choice Act) :=
  .spawn 0 (.submitProposal ⟨"t", delta 1 "s" "t"⟩) :: calls 0 2 1 ++
    .spawn 1 (.execute (execution expiration)) :: calls 1 n 1

/-- Process `pid` acquires the lease of the canonicalization worker. -/
def acquires (pid : Nat) (holder : String) : List (Event Request Choice Act) :=
  .spawn pid (.acquireLease "canonicalization" holder 30) :: calls pid 2 1

/-- The fence of a holder that acquired the lease as the `token`th. -/
def fence (holder : String) (token : Nat) : LeaseFence := ⟨"canonicalization", holder, token⟩

end Demo
end Guardian
