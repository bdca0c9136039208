import Mathlib.Data.String.Basic
import Guardian.Lib.History
import Guardian.Lib.Table
import Guardian.BlockWatch.Store

/- The release sweep worker (`jobs/release_sweep/worker.rs`): one paced loop that
   takes turns between due re-checks, block watch observations, and the rotation,
   a paging walk of the fleet. Block watch asks for walks of the fleet by raising
   a sequence in the store; a walk remembers the sequence it started under, and
   once every account it owes was checked, records it as completed.

   The loop runs for ever. A run of it that took some steps and stopped is a run
   of the loop with enough `fuel`, and one that is never stepped again has
   crashed; the rotation is private to the process and outlives a lost lease.
   Timers, the queues of re-checks and observations, and what a visit finds are
   up to the environment. -/
namespace Guardian.ReleaseSweep

open Interleaving BlockWatch

/-! ## The rotation -/

/-- A point of the process's clock, in milliseconds. -/
abbrev Instant := Nat

inductive VisitOutcome where
  | checked
  | deferred
  | waiting
  | failed
  deriving DecidableEq, Repr

/-- `NEVER`: a year. -/
def never : Nat := 365 * 24 * 60 * 60 * 1000

/-- `MAX_RETRY_BACKOFF`: an hour. -/
def maxRetryBackoff : Nat := 60 * 60 * 1000

/-- `MAX_RETRIED_ACCOUNTS`. -/
def maxRetriedAccounts : Nat := 10000

/-- Durations in milliseconds. The pacing gap of a fleet, a floating-point
quotient, is a function of its size. -/
structure ReleaseSweepConfig where
  enabled : Bool
  rotation : Nat
  minSpacing : Nat
  recheck : Nat
  pageSize : Nat
  spacingFor : Nat → Nat
  /-- Whether block watch is enabled. -/
  blockWatch : Bool
  maxAttempts : Nat

/-- `retry_backoff`. -/
def retryBackoff (recheck attempts : Nat) : Nat :=
  min (recheck * 2 ^ (min attempts 16)) maxRetryBackoff

/-- The accounts a requested walk could not check, visited again on their own. -/
structure Retry where
  startedUnder : Nat
  accounts : List String
  unchecked : List String
  dueAt : Instant
  rounds : Nat
  deriving DecidableEq, Repr

structure Rotation where
  enabled : Bool
  spacing : Nat
  pageSize : Nat
  buffer : List String
  cursor : Option String
  startedAt : Option Instant
  requested : Bool
  requestedAfterCurrent : Bool
  startedUnder : Option Nat
  completedUnder : Option Nat
  retry : Option Retry
  wholeWalkRetries : Nat
  nextStart : Instant
  nextTurn : Instant
  visited : Nat
  unchecked : Nat
  lastWasRetry : Bool
  uncheckedIds : List String
  maxRetried : Nat

namespace Rotation

/-- `Rotation::new`. -/
def new (cfg : ReleaseSweepConfig) (now : Instant) : Rotation :=
  let firstStart := if cfg.enabled then now else now + never
  { enabled := cfg.enabled, spacing := cfg.minSpacing, pageSize := max cfg.pageSize 1
    buffer := [], cursor := none, startedAt := none, requested := false
    requestedAfterCurrent := false, startedUnder := none, completedUnder := none, retry := none
    wholeWalkRetries := 0, nextStart := firstStart, nextTurn := firstStart, visited := 0
    unchecked := 0, lastWasRetry := false, uncheckedIds := [], maxRetried := maxRetriedAccounts }

/-- One walk that starts no earlier than `now`. -/
def request (now : Instant) (r : Rotation) : Rotation :=
  if r.startedAt.isSome then { r with requestedAfterCurrent := true }
  else if r.nextStart > now then { r with requested := true, nextStart := now, nextTurn := now }
  else { r with requested := true }

def retryDue (r : Rotation) (now : Instant) : Bool :=
  r.retry.any (fun retry => decide (retry.dueAt ≤ now) && !retry.accounts.isEmpty)

/-- Whether a step at `now` starts a walk. -/
def startsAt (r : Rotation) (now : Instant) : Bool :=
  r.startedAt.isNone && decide (r.nextStart ≤ now) && !r.retryDue now

/-- Whether the walk in progress, or a retry, covers requests up to `seq`. -/
def covers (r : Rotation) (seq : Nat) : Bool :=
  r.startedAt.isSome && r.startedUnder.any (seq ≤ ·) || r.retry.any (seq ≤ ·.startedUnder)

def idleUntil (r : Rotation) : Instant :=
  r.retry.elim r.nextStart (fun retry => min retry.dueAt r.nextStart)

/-- A requested walk has to be walked again whole: when it may start. -/
def walkAgain (cfg : ReleaseSweepConfig) (now : Instant) (r : Rotation) : Rotation × Instant :=
  ({ r with requested := true, wholeWalkRetries := r.wholeWalkRetries + 1 },
    now + retryBackoff cfg.recheck r.wholeWalkRetries)

/-- What a completed walk leaves, and when another one has to start. `requested`
and `retryUnder` are as they were when it completed; `r` has forgotten the walk. -/
def settle (cfg : ReleaseSweepConfig) (now : Instant) (requested requestedAgain : Bool)
    (startedUnder retryUnder : Option Nat) (uncheckedIds : List String) (r : Rotation) :
    Rotation × Option Instant :=
  let owes := requested || retryUnder.isSome
  if requestedAgain then ({ r with requested := true }, some now)
  else if owes && decide (0 < r.unchecked) then
    match startedUnder with
    | some seq =>
      if uncheckedIds.length = r.unchecked then
        ({ r with
            retry := some ⟨seq, uncheckedIds, [], now + cfg.recheck, 0⟩
            wholeWalkRetries := 0 }, none)
      else
        -- too many accounts to keep: the whole walk again
        let (r, at_) := walkAgain cfg now { r with retry := none }
        (r, some at_)
    | none =>
      let (r, at_) := walkAgain cfg now { r with retry := none }
      (r, some at_)
  else if requested && startedUnder.isNone then
    let (r, at_) := walkAgain cfg now r
    (r, some at_)
  else if r.unchecked = 0 then ({ r with wholeWalkRetries := 0 }, none)
  else (r, none)

/-- The rotation without the walk that completed; one that checked every account
completed what it started under, and covers the retry's request too. -/
def forgetWalk (r : Rotation) : Rotation :=
  { r with
    startedAt := none, cursor := none, buffer := [], requested := false
    startedUnder := none, requestedAfterCurrent := false, uncheckedIds := []
    completedUnder :=
      if r.unchecked = 0 then r.startedUnder.or (r.retry.map (·.startedUnder)) else none
    retry := if r.unchecked = 0 then none else r.retry }

/-- `Rotation::complete`: the walk reached the end of the fleet. -/
def complete (cfg : ReleaseSweepConfig) (now : Instant) (r : Rotation) : Rotation :=
  let startedAt := r.startedAt.getD now
  let (settled, walkAgainAt) := settle cfg now r.requested r.requestedAfterCurrent r.startedUnder
    (r.retry.map (·.startedUnder)) r.uncheckedIds r.forgetWalk
  let scheduled := if settled.enabled then startedAt + cfg.rotation else now + never
  let next := { settled with nextStart := walkAgainAt.elim scheduled (min · scheduled) }
  { next with nextTurn := next.idleUntil }

end Rotation

/-! ## Calls -/

/-- How the loop's wait ended. -/
inductive Wake where
  | cancelled
  | slept
  | woken
  deriving DecidableEq, Repr

/-- A due observation, as far as settling it reads it. -/
structure Observation where
  accountId : String
  attempts : Nat
  deriving DecidableEq, Repr

inductive Op where
  | tryAcquire
  | release
  | now
  | takeRotationRequest
  | nextObservationDue
  | nextRecheckDue
  | wait (wake : Instant)
  | popDueRecheck (now : Instant)
  | nextDueObservation
  /-- Delete, defer or postpone an observation. -/
  | settleObservation (accountId : String)
  /-- A visit begins; the answer is the request sequence at that moment, which
  no code reads. -/
  | beginVisit (accountId : String)
  | endVisit (accountId : String) (begunUnder : Nat)
  | fleetSize
  | listPage (after : Option String) (limit : Nat)
  | walkRequests
  | requestWalk
  | completeWalk (startedUnder : Nat)

/-- Reads and writes of the stores fail with `none`. -/
abbrev Res : Op → Type
  | .tryAcquire => Bool
  | .release => Unit
  | .now => Instant
  | .takeRotationRequest => Bool
  | .nextObservationDue => Option Instant
  | .nextRecheckDue => Option Instant
  | .wait _ => Wake
  | .popDueRecheck _ => Option String
  | .nextDueObservation => Option Observation
  | .settleObservation _ => Unit
  | .beginVisit _ => Nat
  | .endVisit _ _ => VisitOutcome
  | .fleetSize => Option Nat
  | .listPage _ _ => Option (List String)
  | .walkRequests => Option (Option WalkRequests)
  | .requestWalk => Option FencedWrite
  | .completeWalk _ => Option FencedWrite

abbrev SweepProg := Prog Op Res

def call (o : Op) : SweepProg (Res o) := Prog.op o

/-! ## The worker -/

/-- `visit_absorbing`, `visit_observed`: a visit that could not be made failed. -/
def visit (accountId : String) : SweepProg VisitOutcome := do
  let begunUnder ← call (.beginVisit accountId)
  call (.endVisit accountId begunUnder)

/-- `take_over_owed_walk`: a store that cannot be read requests a walk too. -/
def takeOverOwedWalk (r : Rotation) : SweepProg Rotation := do
  match ← call .walkRequests with
  | some (some walks) =>
    if walks.owed && !r.covers walks.requestedSeq then
      return r.request (← call .now)
    else return r
  | some none => return r
  | none => return r.request (← call .now)

/-- `walk_sequence`. -/
def walkSequence : SweepProg (Option Nat) := do
  match ← call .walkRequests with
  | some walks => return some (requestedSeq walks)
  | none => return none

/-- `ObservationQueue::complete_walk`. -/
def recordCompleted (startedUnder : Nat) : SweepProg Unit := do
  if startedUnder = 0 then return ()
  else
    let _ ← call (.completeWalk startedUnder)
    return ()

/-- `settle`: out of attempts, a walk is recorded before the observation goes. -/
def settleObservation (cfg : ReleaseSweepConfig) (observation : Observation)
    (outcome : VisitOutcome) : SweepProg Unit := do
  if (outcome = .deferred ∨ outcome = .failed) ∧ cfg.maxAttempts ≤ observation.attempts + 1 then
    let _ ← call .requestWalk
    call (.settleObservation observation.accountId)
  else call (.settleObservation observation.accountId)

/-- `visit_next`. -/
def visitNextObservation (cfg : ReleaseSweepConfig) : SweepProg Unit := do
  match ← call .nextDueObservation with
  | none => return ()
  | some observation =>
    let outcome ← visit observation.accountId
    settleObservation cfg observation outcome

/-- The round of a retry is done: complete the retry, or schedule the next
round. -/
def endRound (cfg : ReleaseSweepConfig) (retry : Retry) (r : Rotation) : SweepProg Rotation := do
  if retry.unchecked.isEmpty then
    return { r with completedUnder := some retry.startedUnder, retry := none }
  else
    let now ← call .now
    return { r with
      retry := some
        { retry with
          accounts := retry.unchecked, unchecked := [], rounds := retry.rounds + 1
          dueAt := now + retryBackoff cfg.recheck (retry.rounds + 1) } }

/-- `visit_retried`. -/
def visitRetried (cfg : ReleaseSweepConfig) (now : Instant) (r : Rotation) :
    SweepProg Rotation := do
  match r.retry with
  | none => return r
  | some retry =>
    match retry.accounts with
    | [] => return r
    | accountId :: accounts =>
      let outcome ← visit accountId
      let unchecked :=
        if outcome = .checked then retry.unchecked else retry.unchecked ++ [accountId]
      let retry := { retry with accounts, unchecked }
      let r := { r with retry := some retry, nextTurn := now + r.spacing }
      if accounts.isEmpty then
        let r ← endRound cfg retry r
        return if r.startedAt.isNone then { r with nextTurn := r.idleUntil } else r
      else return r

/-- The visit of the next account of the page. -/
def visitNext (now : Instant) (r : Rotation) : SweepProg Rotation := do
  match r.buffer with
  | [] => return r
  | accountId :: buffer =>
    let outcome ← visit accountId
    let r := { r with buffer, visited := r.visited + 1 }
    let r :=
      if outcome = .checked then r
      else
        { r with
          unchecked := r.unchecked + 1
          uncheckedIds :=
            if r.uncheckedIds.length < r.maxRetried then r.uncheckedIds ++ [accountId]
            else r.uncheckedIds }
    -- a retry round due before the walk's next visit is not held up by it
    return { r with
      cursor := some accountId
      nextTurn := r.retry.elim (now + r.spacing)
        (fun retry => min (now + r.spacing) (max retry.dueAt now)) }

/-- `Step`, or the error of a listing. -/
inductive Step where
  | visited
  | idle
  | error
  deriving DecidableEq, Repr

/-- The walk's part of a step: refill the page, then visit its next account. -/
def walkStep (cfg : ReleaseSweepConfig) (now : Instant) (r : Rotation) :
    SweepProg (Step × Rotation) := do
  if r.buffer.isEmpty then
    match ← call .fleetSize with
    | none => return (.error, r)
    | some fleetSize =>
      let r := { r with spacing := max (cfg.spacingFor fleetSize) cfg.minSpacing }
      match ← call (.listPage r.cursor r.pageSize) with
      | none => return (.error, r)
      | some [] =>
        let completedAt ← call .now
        return (.idle, r.complete cfg completedAt)
      | some page =>
        let r ← visitNext now { r with buffer := page }
        return (.visited, r)
  else
    let r ← visitNext now r
    return (.visited, r)

/-- `Rotation::step`. A due retry round goes first, taking turns with the walk's
own visits when one runs. -/
def step (cfg : ReleaseSweepConfig) (now : Instant) (r : Rotation) :
    SweepProg (Step × Rotation) := do
  if r.retryDue now && !(r.startedAt.isSome && r.lastWasRetry) then
    let r ← visitRetried cfg now { r with lastWasRetry := true }
    return (.visited, r)
  else
    let r := { r with lastWasRetry := false }
    if r.startedAt.isNone then
      if now < r.nextStart then return (.idle, { r with nextTurn := r.idleUntil })
      else
        walkStep cfg now
          { r with startedAt := some now, visited := 0, unchecked := 0, uncheckedIds := [] }
    else walkStep cfg now r

/-- A walk that starts learns the sequence it covers. -/
def learnSequence (cfg : ReleaseSweepConfig) (now : Instant) (r : Rotation) :
    SweepProg Rotation :=
  if r.startsAt now && cfg.blockWatch then do
    let startedUnder ← walkSequence
    return { r with startedUnder }
  else return r

/-- A completed walk is recorded. -/
def recordWalk (cfg : ReleaseSweepConfig) (r : Rotation) : SweepProg Rotation :=
  match r.completedUnder with
  | none => return r
  | some startedUnder =>
    if cfg.blockWatch then do
      recordCompleted startedUnder
      return { r with completedUnder := none }
    else return { r with completedUnder := none }

/-- The rotation's turn, and whether it visited an account. -/
def rotationTurn (cfg : ReleaseSweepConfig) (now : Instant) (r : Rotation) :
    SweepProg (Bool × Rotation) := do
  let r ← learnSequence cfg now r
  let (outcome, r) ← step cfg now r
  let r := if outcome = .error then { r with nextTurn := now + cfg.recheck } else r
  let r ← recordWalk cfg r
  return (decide (outcome = .visited), r)

inductive Turn where
  | recheck
  | observation
  | rotation
  deriving DecidableEq, Repr

/-- The turns after `last`, in turn order. -/
def Turn.after : Turn → List Turn
  | .recheck => [.observation, .rotation, .recheck]
  | .observation => [.rotation, .recheck, .observation]
  | .rotation => [.recheck, .observation, .rotation]

/-- `pick_turn`: the first due kind after `last`. -/
def pickTurn (last : Turn) (due : Turn → Bool) : Option Turn := last.after.find? due

/-- `next_wake`. -/
def nextWake (rotationTurn : Instant) (recheckDue observationDue lastVisit : Option Instant)
    (minSpacing : Nat) : Instant :=
  let due := [recheckDue, observationDue].reduceOption.foldl min rotationTurn
  lastVisit.elim due (fun last => max due (last + minSpacing))

/-- Block watch asked for a walk since the last turn. -/
def takeRotationRequest (cfg : ReleaseSweepConfig) (r : Rotation) : SweepProg Rotation :=
  if cfg.blockWatch then do
    if ← call .takeRotationRequest then
      let now ← call .now
      return r.request now
    else return r
  else return r

def observationDue (cfg : ReleaseSweepConfig) : SweepProg (Option Instant) :=
  if cfg.blockWatch then call .nextObservationDue else return none

def observationTurn (cfg : ReleaseSweepConfig) : SweepProg Unit :=
  if cfg.blockWatch then visitNextObservation cfg else return ()

/-- The re-check that is due longest: whether an account was visited. -/
def recheckTurn (now : Instant) : SweepProg Bool := do
  match ← call (.popDueRecheck now) with
  | none => return false
  | some accountId =>
    let _ ← visit accountId
    return true

/-- `hold_lease`: the paced loop, until the lease is lost or the fuel is used. -/
def holdLease (cfg : ReleaseSweepConfig) :
    Nat → Option Instant → Turn → Rotation → SweepProg Rotation
  | 0, _, _, r => return r
  | fuel + 1, lastVisit, lastTurn, r => do
    let r ← takeRotationRequest cfg r
    let observationDue ← observationDue cfg
    let recheckDue ← call .nextRecheckDue
    match ← call (.wait (nextWake r.nextTurn recheckDue observationDue lastVisit cfg.minSpacing)) with
    | .cancelled => return r
    | .woken => holdLease cfg fuel lastVisit lastTurn r
    | .slept =>
      let now ← call .now
      let recheckDue ← call .nextRecheckDue
      match pickTurn lastTurn (fun turn => match turn with
        | .recheck => recheckDue.any (· ≤ now)
        | .observation => observationDue.any (· ≤ now)
        | .rotation => decide (r.nextTurn ≤ now)) with
      | none => holdLease cfg fuel lastVisit lastTurn r
      | some .recheck =>
        let visited ← recheckTurn now
        holdLease cfg fuel (if visited then some now else lastVisit) .recheck r
      | some .observation =>
        observationTurn cfg
        holdLease cfg fuel (some now) .observation r
      | some .rotation =>
        let (visited, r) ← rotationTurn cfg now r
        holdLease cfg fuel (if visited then some now else lastVisit) .rotation r

/-- What a new holder does first. -/
def takeOver (cfg : ReleaseSweepConfig) (r : Rotation) : SweepProg Rotation :=
  if cfg.blockWatch then takeOverOwedWalk r else return r

/-- `run_worker`: acquire the lease, take over the walk it owes, hold it, release
it; each hold with its own fuel. -/
def runWorker (cfg : ReleaseSweepConfig) : List Nat → Rotation → SweepProg Unit
  | [], _ => return ()
  | fuel :: holds, r => do
    if ← call .tryAcquire then
      let r ← takeOver cfg r
      let r ← holdLease cfg fuel none .rotation r
      call .release
      runWorker cfg holds r
    else runWorker cfg holds r

/-- A worker process. -/
structure Worker where
  config : ReleaseSweepConfig
  holds : List Nat

def startReleaseSweepWorker (worker : Worker) : SweepProg Unit := do
  let now ← call .now
  runWorker worker.config worker.holds (.new worker.config now)

/-! ## The machine -/

/-- The walks, and the accounts a walk lists. The last two fields are read by no
process: under which request sequence each listed account was put on the list,
and the latest sequence under which a visit began that checked an account. -/
structure World where
  backend : Backend
  walks : Option WalkRequests
  fleet : Table (id : String → String)
  listedUnder : String → Option Nat
  checkedUnder : String → Nat

/-- The request sequence. -/
def World.requested (w : World) : Nat := requestedSeq w.walks

/-- A visit begun under a sequence checked the account. -/
def World.noteChecked (accountId : String) (begunUnder : Nat) (w : World) : World :=
  { w with
    checkedUnder :=
      Function.update w.checkedUnder accountId (max (w.checkedUnder accountId) begunUnder) }

/-- What the environment decides about a call. -/
inductive Choice where
  | flag (answer : Bool)
  | instant (at_ : Instant)
  | due (at_ : Option Instant)
  | wake (wake : Wake)
  | recheck (accountId : Option String)
  | observation (observation : Option Observation)
  | outcome (outcome : VisitOutcome)
  | done
  | failed
  | stale
  | lost

def exec : (op : Op) → Choice → World → Option (Res op × World)
  | .tryAcquire, .flag acquired, w => some (acquired, w)
  | .release, .done, w => some ((), w)
  | .now, .instant at_, w => some (at_, w)
  | .takeRotationRequest, .flag signalled, w => some (signalled, w)
  | .nextObservationDue, .due at_, w => some (at_, w)
  | .nextRecheckDue, .due at_, w => some (at_, w)
  | .wait _, .wake wake, w => some (wake, w)
  | .popDueRecheck _, .recheck accountId, w => some (accountId, w)
  | .nextDueObservation, .observation observation, w => some (observation, w)
  | .settleObservation _, .done, w => some ((), w)
  | .beginVisit _, .done, w => some (w.requested, w)
  | .endVisit accountId begunUnder, .outcome outcome, w =>
    some (outcome, if outcome = .checked then w.noteChecked accountId begunUnder else w)
  | .fleetSize, .done, w => some (some w.fleet.rows.length, w)
  | .fleetSize, .failed, w => some (none, w)
  | .listPage after limit, .done, w => some (some (w.fleet.page after limit), w)
  | .listPage _ _, .failed, w => some (none, w)
  | .walkRequests, .done, w => some (some w.walks, w)
  | .walkRequests, .failed, w => some (none, w)
  | .requestWalk, .done, w =>
    (BlockWatch.requestWalk w.backend w.walks).map
      (fun walks => (some .written, { w with walks := some walks }))
  | .requestWalk, .lost, w =>
    (BlockWatch.requestWalk w.backend w.walks).map
      (fun walks => (none, { w with walks := some walks }))
  | .requestWalk, .stale, w => if w.backend = .postgres then some (some .staleLease, w) else none
  | .requestWalk, .failed, w => some (none, w)
  | .completeWalk startedUnder, .done, w =>
    some (some .written, { w with walks := BlockWatch.completeWalk startedUnder w.walks })
  | .completeWalk startedUnder, .lost, w =>
    some (none, { w with walks := BlockWatch.completeWalk startedUnder w.walks })
  | .completeWalk _, .stale, w =>
    if w.backend = .postgres then some (some .staleLease, w) else none
  | .completeWalk _, .failed, w => some (none, w)
  | _, _, _ => none

/-- What happens beside the workers: block watch records a walk request, and an
account becomes sweepable or stops being. -/
inductive Act where
  | request
  | list (accountId : String)
  | unlist (accountId : String)
  deriving DecidableEq, Repr

def act : Act → World → Option World
  | .request, w =>
    (BlockWatch.requestWalk w.backend w.walks).map (fun walks => { w with walks := some walks })
  | .list accountId, w =>
    if (w.fleet.find? accountId).isSome then none
    else
      some { w with
        fleet := w.fleet.insert accountId
        listedUnder := Function.update w.listedUnder accountId (some w.requested) }
  | .unlist accountId, w =>
    some { w with
      fleet := w.fleet.delete (· == accountId)
      listedUnder := Function.update w.listedUnder accountId none }

def machine : Machine Op Res World Choice Act where
  exec := fun _ op ch w => exec op ch w
  act := act

/-- Before any walk was requested. -/
def World.start (backend : Backend) : World where
  backend := backend
  walks := none
  fleet := .empty
  listedUnder := fun _ => none
  checkedUnder := fun _ => 0

end Guardian.ReleaseSweep
