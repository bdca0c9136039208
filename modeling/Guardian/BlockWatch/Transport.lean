import Guardian.BlockWatch.Consumer

/- Which transport block watch reads over, and when it opens one (`auto.rs`, and the
   transport side of `consume` in `consumer.rs`). A stream that fails is opened
   again after a wait, or block watch polls in its place until the stream is due.

   The consumer's reads and writes are modelled in `Consumer`, where the transport
   and every wait are the environment's choice. Here they are the ones the code
   makes, on a clock, and what the reads and writes answer is the environment's.
   Instants and durations are in nanoseconds, and runs have fewer than `2^32`
   failures of a transport, which `u32`s count. What a run did is kept in a log,
   newest first, which no step reads. -/
namespace Guardian.BlockWatch.Transports

open Consumer (MalformedStreak)

def seconds (n : Nat) : Nat := n * 1000000000

/-! ## Failures -/

/-- The gRPC codes `auto.rs` and `consume` tell apart. -/
inductive Code where
  | unimplemented
  | permissionDenied
  | unauthenticated
  | resourceExhausted
  | outOfRange
  | internal
  | other
  deriving DecidableEq, Repr

/-- `BlockSourceError`; a broken connection, a block out of sequence, an ended
source and a timeout are all `broken`. -/
inductive SourceError where
  | status (code : Code)
  | malformed
  | unavailable (blockNum : Nat)
  | broken
  deriving DecidableEq, Repr

def SourceError.code : SourceError → Option Code
  | .status code => some code
  | _ => none

inductive FailureKind where
  | refused
  | banned
  | other
  deriving DecidableEq, Repr

def FailureKind.of (error : SourceError) : FailureKind :=
  match error.code with
  | some .unimplemented => .refused
  | some .permissionDenied => .refused
  | some .unauthenticated => .refused
  | some .resourceExhausted => .banned
  | _ => .other

/-! ## The policy -/

structure Config where
  mode : TransportMode
  banCooldown : Nat
  streamRetry : Nat
  deriving DecidableEq, Repr

structure Decision where
  transport : Transport
  wait : Nat
  deriving DecidableEq, Repr

/-- `retryAt` is when to try the stream again, in `auto` mode while polling. -/
structure TransportPolicy extends Config where
  streamFailures : Nat
  pollFailures : Nat
  retryAt : Option Nat
  deriving DecidableEq, Repr

def backoffBase : Nat := seconds 1

def backoffCap : Nat := seconds 60

def streamFailuresBeforePolling : Nat := 5

/-- `BACKOFF_BASE * 2^(failures - 1)`, capped at `BACKOFF_CAP`. -/
def backoff (failures : Nat) : Nat :=
  min (backoffBase * 2 ^ min (failures - 1) 16) backoffCap

namespace TransportPolicy

def new (cfg : Config) : TransportPolicy := ⟨cfg, 0, 0, none⟩

/-- The transport to open at `now`. -/
def transport (p : TransportPolicy) (now : Nat) : Transport :=
  match p.mode with
  | .stream => .stream
  | .poll => .poll
  | .auto => if p.retryAt.any (fun retryAt => decide (now < retryAt)) then .poll else .stream

/-- When the stream is due to be tried again. -/
def streamRetryAt (p : TransportPolicy) : Option Nat :=
  match p.mode with
  | .auto => p.retryAt
  | .stream | .poll => none

def onBlock (p : TransportPolicy) : Transport → TransportPolicy
  | .stream => { p with streamFailures := 0 }
  | .poll => { p with pollFailures := 0 }

/-- The stream's failure count is kept: the cooldown delivered no block over it. -/
def pollUntil (p : TransportPolicy) (retryAt : Nat) : Decision × TransportPolicy :=
  (⟨.poll, 0⟩, { p with retryAt := some retryAt })

/-- A source over `transport` failed at `now`. -/
def onFailure (p : TransportPolicy) (transport : Transport) (kind : FailureKind)
    (now : Nat) : Decision × TransportPolicy :=
  match transport, p.mode with
  | .stream, .auto =>
    match kind with
    | .refused => p.pollUntil (now + p.streamRetry)
    | .banned => p.pollUntil (now + p.banCooldown)
    | .other =>
      let p := { p with streamFailures := p.streamFailures + 1 }
      if streamFailuresBeforePolling ≤ p.streamFailures then p.pollUntil (now + p.streamRetry)
      else (⟨.stream, backoff p.streamFailures⟩, p)
  | .stream, _ =>
    match kind with
    | .refused => (⟨.stream, p.streamRetry⟩, p)
    | .banned => (⟨.stream, p.banCooldown⟩, p)
    | .other =>
      let p := { p with streamFailures := p.streamFailures + 1 }
      (⟨.stream, backoff p.streamFailures⟩, p)
  | .poll, _ =>
    let p := { p with pollFailures := p.pollFailures + 1 }
    let wait := backoff p.pollFailures
    (⟨p.transport (now + wait), wait⟩, p)

end TransportPolicy

/-! ## The loop -/

inductive Event where
  /-- A source was to be opened over `transport`. -/
  | tried (transport : Transport) (instant : Nat)
  /-- The wait for a block began. -/
  | listened (transport : Transport) (instant : Nat)
  | block (transport : Transport)
  /-- The policy was told of a failure. -/
  | failed (transport : Transport) (kind : FailureKind) (instant : Nat)
  | undecodable (transport : Transport) (blockNum : Nat) (skipped : Bool)
  deriving DecidableEq, Repr

/-- The variables of `consume`, with the time and the log. -/
structure Loop where
  policy : TransportPolicy
  next : Nat
  source : Option Transport
  openAt : Nat
  firstOpen : Bool
  malformed : MalformedStreak
  gone : Option (Nat × Nat)
  refusedFromCursor : Nat
  now : Nat
  log : List Event
  deriving DecidableEq, Repr

inductive Received where
  | block (blockNum : Nat)
  | error (error : SourceError)
  | timedOut
  deriving DecidableEq, Repr

/-- What the environment answers in one round, as far as the round asks: how long
each wait and each call takes, and what the node and the store say. -/
structure Answers where
  /-- How far past `open_at` the wait for it ends. -/
  late : Nat
  /-- Where `start` begins, if the chain was reset. -/
  reset : Option Nat
  resetting : Nat
  /-- Why the source could not be opened; none when it was. -/
  opened : Option SourceError
  opening : Nat
  received : Received
  receiving : Nat
  /-- The next block is committed, and the node does not serve it. -/
  notServed : Bool
  tip : Option Nat
  /-- How long the node takes to say either. -/
  asking : Nat
  /-- Where `start` begins, or the jump past blocks that are gone ends. -/
  goOn : Nat
  /-- How long the block, the skip, the jump or the start takes. -/
  working : Nat
  jitter : Nat
  deriving DecidableEq, Repr

/-- `jittered`: half of the wait, and a random part of the other half. -/
def jittered (wait jitter : Nat) : Nat := wait / 2 + min jitter (wait / 2)

def goneBlockConfirmFor : Nat := seconds 30

namespace Loop

def pass (took : Nat) (l : Loop) : Loop := { l with now := l.now + took }

def note (event : Event) (l : Loop) : Loop := { l with log := event :: l.log }

/-- `failed`, and the stall: the policy is told, and says when to open again. -/
def failed (transport : Transport) (kind : FailureKind) (jitter : Nat) (l : Loop) : Loop :=
  let (decision, policy) := l.policy.onFailure transport kind l.now
  { l.note (.failed transport kind l.now) with
    policy := policy
    source := none
    openAt := l.now + jittered decision.wait jitter }

/-- `GoneBlock::confirmed`. -/
def goneConfirmed (l : Loop) : Bool × Loop :=
  match l.gone with
  | some (seen, since) =>
    if seen = l.next then (decide (goneBlockConfirmFor ≤ l.now - since), l)
    else (false, { l with gone := some (l.next, l.now) })
  | none => (false, { l with gone := some (l.next, l.now) })

/-- Whether a failure may mean that the next block is no longer served. -/
def suspect (error : SourceError) (next : Nat) : Bool :=
  match error with
  | .unavailable blockNum => blockNum == next
  | other => other.code == some .internal

/-- A source failed: past a block that is gone, or again from here. -/
def sourceFailed (transport : Transport) (error : SourceError) (a : Answers) (l : Loop) : Loop :=
  let l := l.pass a.asking
  if suspect error l.next && a.notServed then
    let (confirmed, l) := l.goneConfirmed
    if confirmed then { l.pass a.working with next := a.goOn }
    else l.failed transport (.of error) a.jitter
  else l.failed transport (.of error) a.jitter

/-- The wait for `open_at`, and the start on a chain that was reset. -/
def wake (a : Answers) (l : Loop) : Loop :=
  let l := { l with now := max l.now l.openAt + a.late }
  if l.firstOpen then { l with firstOpen := false }
  else { l.pass a.resetting with next := a.reset.getD l.next }

/-- Open a source over `transport`. -/
def openSource (transport : Transport) (a : Answers) (l : Loop) : Loop :=
  let l := (l.note (.tried transport l.now)).pass a.opening
  match a.opened with
  | none => { l with source := some transport, refusedFromCursor := 0 }
  | some error =>
    -- the cursor is too far past the node's tip
    if error.code = some .outOfRange then
      let l := { l.pass a.working with
        next := a.goOn
        refusedFromCursor := l.refusedFromCursor + 1 }
      { l with openAt := l.now + jittered (backoff l.refusedFromCursor) a.jitter }
    else l.sourceFailed transport error a

def reopen (a : Answers) (l : Loop) : Loop :=
  (l.wake a).openSource ((l.wake a).policy.transport (l.wake a).now) a

/-- A source that delivered nothing: the tip tells whether it is stuck, or the chain
is far below the cursor. -/
def stalled (transport : Transport) (a : Answers) (l : Loop) : Loop :=
  let l := l.pass a.asking
  match a.tip with
  | none => l
  | some tip =>
    if nextBlock (min (tip + Consumer.maxCursorLeadBlocks) u32Max) < l.next then
      { l.pass a.working with source := none, next := a.goOn }
    else if l.next ≤ tip then l.failed transport .other a.jitter
    else l

/-- `auto` mode, polling: when the stream is tried again. -/
def handBackAt (transport : Transport) (l : Loop) : Option Nat :=
  match transport with
  | .poll => l.policy.streamRetryAt
  | .stream => none

/-- A block that could not be decoded: skipped, once that has happened often enough. -/
def undecodable (transport : Transport) (a : Answers) (l : Loop) : Loop :=
  let (skip, malformed) := l.malformed.record l.next transport l.policy.mode
  let l := { l.note (.undecodable transport l.next skip) with
    source := none
    malformed := malformed }
  if skip then
    let l := l.pass a.working
    { l with next := nextBlock l.next, openAt := l.now }
  else l.sourceFailed transport .malformed a

/-- What an open source delivered. -/
def handle (transport : Transport) (a : Answers) (l : Loop) : Loop :=
  match a.received with
  | .block blockNum =>
    let l := { l.note (.block transport) with policy := l.policy.onBlock transport }
    { l.pass a.working with next := nextBlock blockNum }
  | .error .malformed => l.undecodable transport a
  | .error error => { l with source := none }.sourceFailed transport error a
  | .timedOut =>
    if (l.handBackAt transport).any (fun retryAt => decide (retryAt ≤ l.now)) then l
    else l.stalled transport a

/-- One wait for a block; polling ends once the stream is due again. -/
def receive (transport : Transport) (a : Answers) (l : Loop) : Loop :=
  if (l.handBackAt transport).any (fun retryAt => decide (retryAt ≤ l.now)) then
    { l with source := none, openAt := l.now }
  else ((l.note (.listened transport l.now)).pass a.receiving).handle transport a

/-- One round of the loop. -/
def round (l : Loop) (a : Answers) : Loop :=
  match l.source with
  | none => l.reopen a
  | some transport => l.receive transport a

def run (l : Loop) (rounds : List Answers) : Loop := rounds.foldl round l

/-- `consume`, once `start` has said where to begin. -/
def start (cfg : Config) (next : Nat) (now : Nat) : Loop :=
  ⟨.new cfg, next, none, now, true, ⟨0, 0, 0⟩, none, 0, now, []⟩

end Loop

/-! ## What a log says -/

/-- The failures of the stream, refusals and bans apart, since its last block. -/
def streak : List Event → Nat
  | [] => 0
  | .block .stream :: _ => 0
  | .failed .stream .other _ :: log => streak log + 1
  | _ :: log => streak log

/-- How long the stream is left alone after a failure, the last of `failures` in a
row. -/
def cooldown (cfg : Config) (kind : FailureKind) (failures : Nat) : Nat :=
  match cfg.mode, kind with
  | .auto, .refused => cfg.streamRetry
  | .auto, .banned => cfg.banCooldown
  | .auto, .other =>
    if streamFailuresBeforePolling ≤ failures then cfg.streamRetry else backoff failures / 2
  | _, .refused => cfg.streamRetry / 2
  | _, .banned => cfg.banCooldown / 2
  | _, .other => backoff failures / 2

/-- When the stream may be tried again, after everything in the log. -/
def notBefore (cfg : Config) : List Event → Nat
  | [] => 0
  | .failed .stream kind t :: log =>
    max (t + cooldown cfg kind (streak (.failed .stream kind t :: log))) (notBefore cfg log)
  | _ :: log => notBefore cfg log

/-- Every try of the stream in the log came when it was due. -/
def Spaced (cfg : Config) : List Event → Prop
  | [] => True
  | .tried .stream s :: log => notBefore cfg log ≤ s ∧ Spaced cfg log
  | _ :: log => Spaced cfg log

/-- A failure of the stream sent block watch polling up to `endsAt`, and the stream
has not been tried since. -/
def Cooling (cfg : Config) (log : List Event) (endsAt : Nat) : Prop :=
  ∃ between kind t older, log = between ++ .failed .stream kind t :: older ∧
    (kind = .other → streamFailuresBeforePolling ≤ streak (.failed .stream kind t :: older)) ∧
    endsAt = t + cooldown cfg kind (streak (.failed .stream kind t :: older)) ∧
    ∀ s, .tried .stream s ∉ between

/-- Whether the event is a use of the polling transport at `s`. -/
def Event.PollsAt (s : Nat) (e : Event) : Prop := e = .tried .poll s ∨ e = .listened .poll s

/-- Every use of the polling transport was in a cooldown of the stream. -/
def Excused (cfg : Config) : List Event → Prop
  | [] => True
  | e :: log => (∀ s, e.PollsAt s → ∃ r, s < r ∧ Cooling cfg log r) ∧ Excused cfg log

theorem notBefore_le_of_failed (cfg : Config) {kind : FailureKind} {t : Nat}
    {older : List Event} (between : List Event) :
    t + cooldown cfg kind (streak (.failed .stream kind t :: older)) ≤
      notBefore cfg (between ++ .failed .stream kind t :: older) := by
  induction between with
  | nil => exact le_max_left _ _
  | cons e between ih =>
    rw [List.cons_append]
    unfold notBefore
    split
    · exact absurd ‹_› (List.cons_ne_nil _ _)
    · rename_i heq
      cases heq
      exact ih.trans (le_max_right _ _)
    · rename_i heq
      cases heq
      exact ih

theorem Spaced.le {cfg : Config} {s : Nat} {older : List Event} :
    ∀ {newer : List Event}, Spaced cfg (newer ++ .tried .stream s :: older) →
      notBefore cfg older ≤ s
  | [], h => h.1
  | e :: newer, h => by
    have htail : Spaced cfg (newer ++ .tried .stream s :: older) := by
      rw [List.cons_append] at h
      unfold Spaced at h
      split at h
      · exact absurd ‹_› (List.cons_ne_nil _ _)
      · rename_i heq
        cases heq
        exact h.2
      · rename_i heq
        cases heq
        exact h
    exact htail.le

theorem Excused.cooling {cfg : Config} {e : Event} {older : List Event} :
    ∀ {newer : List Event}, Excused cfg (newer ++ e :: older) →
      ∀ s, e.PollsAt s → ∃ r, s < r ∧ Cooling cfg older r
  | [], h => h.1
  | _ :: _, h => h.2.cooling

theorem Excused.note {cfg : Config} {log : List Event} (h : Excused cfg log) {e : Event}
    (htried : ∀ s, e ≠ .tried .poll s) (hlistened : ∀ s, e ≠ .listened .poll s) :
    Excused cfg (e :: log) :=
  ⟨fun s hs => absurd hs (not_or_intro (htried s) (hlistened s)), h⟩

theorem Cooling.note {cfg : Config} {log : List Event} {r : Nat} (h : Cooling cfg log r)
    {e : Event} (he : ∀ s, e ≠ .tried .stream s) : Cooling cfg (e :: log) r := by
  obtain ⟨between, kind, t, older, rfl, hfifth, hr, hbetween⟩ := h
  refine ⟨e :: between, kind, t, older, rfl, hfifth, hr, fun s hs => ?_⟩
  rcases List.mem_cons.mp hs with hs | hs
  · exact he s hs.symm
  · exact hbetween s hs

/-! ## The invariant -/

/-- When the stream is due, as far as the policy says. -/
def TransportPolicy.due (p : TransportPolicy) : Nat := p.retryAt.getD 0

/-- What holds between the steps of a round. Only a failure of the stream moves
`retry_at`, and only a failure moves `open_at` ahead of the clock: their maximum
with the clock never falls, and no stream is opened before it. -/
structure Kept (cfg : Config) (l : Loop) : Prop where
  config : l.policy.toConfig = cfg
  counted : l.policy.streamFailures = streak l.log
  retries : cfg.mode ≠ .auto → l.policy.retryAt = none
  waits : notBefore cfg l.log ≤ max l.now (max l.openAt l.policy.due)
  spaced : Spaced cfg l.log
  cooling : ∀ r, l.policy.retryAt = some r → l.now < r → Cooling cfg l.log r
  excused : cfg.mode = .auto → Excused cfg l.log

/-- A source over `transport` is open, or was just tried: its waits are over. -/
structure Ready (transport : Transport) (l : Loop) : Prop where
  opened : l.openAt ≤ l.now
  due : transport = .stream → l.policy.due ≤ l.now
  polls : transport = .poll → l.policy.mode = .auto → ∃ r, l.policy.retryAt = some r

section Steps

variable {cfg : Config} {l l' : Loop} {transport : Transport}

/-- The invariant reads the policy, the clock, `open_at` and the log. -/
theorem Kept.later (h : Kept cfg l) (hpolicy : l'.policy = l.policy) (hlog : l'.log = l.log)
    (hnow : l.now ≤ l'.now) (hopen : l'.openAt = l.openAt) : Kept cfg l' where
  config := by rw [hpolicy]; exact h.config
  counted := by rw [hpolicy, hlog]; exact h.counted
  retries := by rw [hpolicy]; exact h.retries
  waits := by
    rw [hpolicy, hlog, hopen]
    exact h.waits.trans (max_le_max hnow le_rfl)
  spaced := by rw [hlog]; exact h.spaced
  cooling := by
    rw [hpolicy, hlog]
    exact fun r hr hlt => h.cooling r hr (hnow.trans_lt hlt)
  excused := by rw [hlog]; exact h.excused

theorem Ready.later (h : Ready transport l) (hpolicy : l'.policy = l.policy)
    (hnow : l.now ≤ l'.now) (hopen : l'.openAt = l.openAt) : Ready transport l' where
  opened := by rw [hopen]; exact h.opened.trans hnow
  due := by rw [hpolicy]; exact fun ht => (h.due ht).trans hnow
  polls := by rw [hpolicy]; exact h.polls

theorem Kept.pass (h : Kept cfg l) (took : Nat) : Kept cfg (l.pass took) :=
  h.later rfl rfl (Nat.le_add_right _ _) rfl

theorem Ready.pass (h : Ready transport l) (took : Nat) : Ready transport (l.pass took) :=
  h.later rfl (Nat.le_add_right _ _) rfl

/-- Once the waits of an open source are over, `open_at` may be put to any later
instant. -/
theorem Kept.openAt (h : Kept cfg l) (hopened : l.openAt ≤ l.now) {t : Nat}
    (ht : l.now ≤ t) : Kept cfg { l with openAt := t } where
  config := h.config
  counted := h.counted
  retries := h.retries
  waits := by
    have hmax := h.waits
    show notBefore cfg l.log ≤ max l.now (max t l.policy.due)
    omega
  spaced := h.spaced
  cooling := h.cooling
  excused := h.excused

end Steps

section Failures

variable {cfg : Config} {l : Loop} {transport : Transport}

theorem half_le_jittered (wait jitter : Nat) : wait / 2 ≤ jittered wait jitter :=
  Nat.le_add_right _ _

/-- How many failures of the stream in a row there are after one of `kind`. -/
def failuresAfter (kind : FailureKind) (failures : Nat) : Nat :=
  match kind with
  | .other => failures + 1
  | _ => failures

/-- Either the wait covers the cooldown, or block watch polls until it is over. -/
structure Answered (p : TransportPolicy) (kind : FailureKind) (now jitter : Nat)
    (r : Decision × TransportPolicy) : Prop where
  config : r.2.toConfig = p.toConfig
  counted : r.2.streamFailures = failuresAfter kind p.streamFailures
  cooled : (r.2.retryAt = p.retryAt ∧
      cooldown p.toConfig kind r.2.streamFailures ≤ jittered r.1.wait jitter) ∨
    (p.mode = .auto ∧ (kind = .other → streamFailuresBeforePolling ≤ r.2.streamFailures) ∧
      r.2.retryAt = some (now + cooldown p.toConfig kind r.2.streamFailures))

theorem onFailure_auto (p : TransportPolicy) (hauto : p.mode = .auto) (kind : FailureKind)
    (now jitter : Nat) : Answered p kind now jitter (p.onFailure .stream kind now) := by
  cases kind with
  | refused =>
    simp only [TransportPolicy.onFailure, hauto]
    refine ⟨rfl, rfl, .inr ⟨hauto, nofun, ?_⟩⟩
    simp only [TransportPolicy.pollUntil, cooldown, hauto]
  | banned =>
    simp only [TransportPolicy.onFailure, hauto]
    refine ⟨rfl, rfl, .inr ⟨hauto, nofun, ?_⟩⟩
    simp only [TransportPolicy.pollUntil, cooldown, hauto]
  | other =>
    simp only [TransportPolicy.onFailure, hauto]
    split
    · rename_i hfifth
      refine ⟨rfl, rfl, .inr ⟨hauto, fun _ => hfifth, ?_⟩⟩
      have hcooldown : cooldown p.toConfig .other (p.streamFailures + 1) = p.streamRetry := by
        simp only [cooldown, hauto, if_pos hfifth]
      exact congrArg (fun wait => some (now + wait)) hcooldown.symm
    · rename_i hfew
      refine ⟨rfl, rfl, .inl ⟨rfl, ?_⟩⟩
      simp only [cooldown, hauto, if_neg hfew]
      exact half_le_jittered _ _

theorem onFailure_stream (p : TransportPolicy) (hauto : p.mode ≠ .auto) (kind : FailureKind)
    (now jitter : Nat) : Answered p kind now jitter (p.onFailure .stream kind now) := by
  cases hmode : p.mode with
  | auto => exact absurd hmode hauto
  | stream | poll =>
    cases kind with
    | refused | banned | other =>
      simp only [TransportPolicy.onFailure, hmode]
      refine ⟨rfl, rfl, .inl ⟨rfl, ?_⟩⟩
      simp only [cooldown, hmode]
      exact half_le_jittered _ _

/-- A source that was ready failed, and the policy was told. -/
theorem Kept.failed_stream (h : Kept cfg l) (hready : Ready .stream l) (kind : FailureKind)
    (jitter : Nat) : Kept cfg (l.failed .stream kind jitter) := by
  obtain ⟨hconfig, hcounted, hcooled⟩ : Answered l.policy kind l.now jitter
      (l.policy.onFailure .stream kind l.now) := by
    by_cases hauto : l.policy.mode = .auto
    · exact onFailure_auto _ hauto _ _ _
    · exact onFailure_stream _ hauto _ _ _
  have hcfg : l.policy.toConfig = cfg := h.config
  have hmode : l.policy.mode = cfg.mode := congrArg Config.mode hcfg
  have hstreak : (l.policy.onFailure .stream kind l.now).2.streamFailures =
      streak (.failed .stream kind l.now :: l.log) := by
    rw [hcounted, h.counted]
    cases kind with
    | refused | banned | other => rfl
  rw [hcfg, hstreak] at hcooled
  have hdue : l.policy.due ≤ l.now := hready.due rfl
  have hopened := hready.opened
  have hwaits := h.waits
  refine ⟨hconfig.trans hcfg, hstreak, ?_, ?_, h.spaced, ?_, ?_⟩
  · intro hauto
    rcases hcooled with ⟨hretry, -⟩ | ⟨hmode', -⟩
    · exact hretry.trans (h.retries hauto)
    · exact absurd hmode' hauto
  · show max (l.now + cooldown cfg kind (streak (.failed .stream kind l.now :: l.log)))
        (notBefore cfg l.log) ≤ max l.now
          (max (l.now + jittered (l.policy.onFailure .stream kind l.now).1.wait jitter)
            (l.policy.onFailure .stream kind l.now).2.due)
    rcases hcooled with ⟨-, hwait⟩ | ⟨-, -, hretry⟩
    · omega
    · have hdue' : (l.policy.onFailure .stream kind l.now).2.due =
          l.now + cooldown cfg kind (streak (.failed .stream kind l.now :: l.log)) := by
        rw [TransportPolicy.due, hretry]
        rfl
      omega
  · intro r hr hlt
    rcases hcooled with ⟨hretry, -⟩ | ⟨-, hfifth, hretry⟩
    · -- the stream was due when it was opened
      have hr' : l.policy.due = r := by
        rw [TransportPolicy.due, hretry.symm.trans hr]
        rfl
      have hlt' : l.now < r := hlt
      omega
    · exact ⟨[], kind, l.now, l.log, rfl, hfifth, Option.some.inj (hr.symm.trans hretry), nofun⟩
  · exact fun hauto => (h.excused hauto).note nofun nofun

theorem Kept.failed_poll (h : Kept cfg l) (hready : Ready .poll l) (kind : FailureKind)
    (jitter : Nat) : Kept cfg (l.failed .poll kind jitter) := by
  refine ⟨h.config, h.counted, h.retries, ?_, h.spaced, ?_, ?_⟩
  · show notBefore cfg l.log ≤ max l.now
      (max (l.now + jittered (l.policy.onFailure .poll kind l.now).1.wait jitter) l.policy.due)
    have hopened := hready.opened
    have hwaits := h.waits
    omega
  · exact fun r hr hlt => (h.cooling r hr hlt).note nofun
  · exact fun hauto => (h.excused hauto).note nofun nofun

theorem Kept.failed (h : Kept cfg l) (hready : Ready transport l) (kind : FailureKind)
    (jitter : Nat) : Kept cfg (l.failed transport kind jitter) := by
  cases transport with
  | stream => exact h.failed_stream hready kind jitter
  | poll => exact h.failed_poll hready kind jitter

end Failures

section Rounds

variable {cfg : Config} {l : Loop} {transport : Transport}

/-- The stream is picked only once it is due. -/
theorem due_le_of_transport {p : TransportPolicy} (hretry : p.mode ≠ .auto → p.retryAt = none)
    {now : Nat} (h : p.transport now = .stream) : p.due ≤ now := by
  by_cases hauto : p.mode = .auto
  · simp only [TransportPolicy.transport, hauto] at h
    cases hat : p.retryAt with
    | none => simp [TransportPolicy.due, hat]
    | some r =>
      have hle : ¬ now < r := by
        intro hlt
        simp [hat, hlt] at h
      simpa [TransportPolicy.due, hat] using hle
  · simp [TransportPolicy.due, hretry hauto]

/-- In `auto` mode polling is picked only before the stream is due. -/
theorem lt_retryAt_of_transport {p : TransportPolicy} (hauto : p.mode = .auto) {now : Nat}
    (h : p.transport now = .poll) : ∃ r, p.retryAt = some r ∧ now < r := by
  simp only [TransportPolicy.transport, hauto] at h
  cases hat : p.retryAt with
  | none => simp [hat] at h
  | some r =>
    refine ⟨r, rfl, ?_⟩
    by_contra hle
    simp [hat, hle] at h

theorem Kept.mode (h : Kept cfg l) : l.policy.mode = cfg.mode := congrArg Config.mode h.config

/-- A source over the transport the policy picks is tried. -/
theorem Kept.tried (h : Kept cfg l) (hopened : l.openAt ≤ l.now) :
    Kept cfg (l.note (.tried (l.policy.transport l.now) l.now)) ∧
      Ready (l.policy.transport l.now) (l.note (.tried (l.policy.transport l.now) l.now)) := by
  have hretry : l.policy.mode ≠ .auto → l.policy.retryAt = none := by
    rw [h.mode]
    exact h.retries
  cases ht : l.policy.transport l.now with
  | stream =>
    have hdue : l.policy.due ≤ l.now := due_le_of_transport hretry ht
    have hwaits := h.waits
    refine ⟨⟨h.config, h.counted, h.retries, hwaits, ⟨by omega, h.spaced⟩, ?_, ?_⟩,
      ⟨hopened, fun _ => hdue, nofun⟩⟩
    · intro r hr hlt
      have hr' : l.policy.retryAt = some r := hr
      have hlt' : l.now < r := hlt
      simp only [TransportPolicy.due, hr', Option.getD_some] at hdue
      omega
    · exact fun hauto => (h.excused hauto).note nofun nofun
  | poll =>
    refine ⟨⟨h.config, h.counted, h.retries, h.waits, h.spaced, ?_, ?_⟩,
      ⟨hopened, nofun, fun _ hauto => (lt_retryAt_of_transport hauto ht).imp fun _ hr => hr.1⟩⟩
    · exact fun r hr hlt => (h.cooling r hr hlt).note nofun
    · intro hauto
      refine ⟨fun s hs => ?_, h.excused hauto⟩
      obtain ⟨r, hr, hlt⟩ := lt_retryAt_of_transport (h.mode.trans hauto) ht
      rcases hs with hs | hs
      · cases hs
        exact ⟨r, hlt, h.cooling r hr hlt⟩
      · cases hs

theorem goneConfirmed_eq (l : Loop) : ∃ gone, l.goneConfirmed.2 = { l with gone := gone } := by
  unfold Loop.goneConfirmed
  split
  · split
    · exact ⟨l.gone, rfl⟩
    · exact ⟨_, rfl⟩
  · exact ⟨_, rfl⟩

/-- Between two rounds. -/
structure Inv (cfg : Config) (l : Loop) : Prop where
  kept : Kept cfg l
  ready : ∀ t, l.source = some t → Ready t l

/-- Without a source, there is nothing to be ready. -/
theorem Kept.closed (h : Kept cfg l) (hsource : l.source = none) : Inv cfg l :=
  ⟨h, fun t ht => by rw [hsource] at ht; cases ht⟩

theorem Kept.failed_inv (h : Kept cfg l) (hready : Ready transport l) (kind : FailureKind)
    (jitter : Nat) : Inv cfg (l.failed transport kind jitter) :=
  (h.failed hready kind jitter).closed rfl

theorem Kept.sourceFailed (h : Kept cfg l) (hready : Ready transport l)
    (hsource : l.source = none) (error : SourceError) (a : Answers) :
    Inv cfg (l.sourceFailed transport error a) := by
  have hasked := h.pass a.asking
  have hready' := hready.pass a.asking
  unfold Loop.sourceFailed
  dsimp only
  split
  · obtain ⟨gone, hgone⟩ := goneConfirmed_eq (l.pass a.asking)
    rw [hgone]
    have hkept : Kept cfg { l.pass a.asking with gone := gone } :=
      hasked.later rfl rfl le_rfl rfl
    have hready'' : Ready transport { l.pass a.asking with gone := gone } :=
      hready'.later rfl le_rfl rfl
    split
    · exact Kept.closed (Kept.later (hkept.pass a.working) rfl rfl le_rfl rfl) hsource
    · exact hkept.failed_inv hready'' _ _
  · exact hasked.failed_inv hready' _ _

theorem Kept.openSource (h : Kept cfg l) (hopened : l.openAt ≤ l.now) (hsource : l.source = none)
    (a : Answers) : Inv cfg (l.openSource (l.policy.transport l.now) a) := by
  obtain ⟨htried, hready⟩ := h.tried hopened
  have hkept := htried.pass a.opening
  have hready' := hready.pass a.opening
  unfold Loop.openSource
  dsimp only
  split
  · refine ⟨hkept.later rfl rfl le_rfl rfl, fun t ht => ?_⟩
    cases ht
    exact hready'.later rfl le_rfl rfl
  · split
    · have hworked := (hkept.pass a.working).openAt (hready'.pass a.working).opened
        (Nat.le_add_right _ (jittered (backoff (l.refusedFromCursor + 1)) a.jitter))
      exact Kept.closed (Kept.later hworked rfl rfl le_rfl rfl) hsource
    · exact hkept.sourceFailed hready' hsource _ a

theorem Kept.wake (h : Kept cfg l) (a : Answers) :
    Kept cfg (l.wake a) ∧ (l.wake a).openAt ≤ (l.wake a).now ∧ (l.wake a).source = l.source := by
  have hle : l.now ≤ max l.now l.openAt + a.late := by omega
  unfold Loop.wake
  dsimp only
  split
  · refine ⟨Kept.later h rfl rfl hle rfl, ?_, rfl⟩
    show l.openAt ≤ max l.now l.openAt + a.late
    omega
  · refine ⟨Kept.later h rfl rfl (hle.trans (Nat.le_add_right _ _)) rfl, ?_, rfl⟩
    show l.openAt ≤ max l.now l.openAt + a.late + a.resetting
    omega

theorem Kept.reopen (h : Kept cfg l) (hsource : l.source = none) (a : Answers) :
    Inv cfg (l.reopen a) := by
  obtain ⟨hkept, hopened, hwake⟩ := h.wake a
  exact hkept.openSource hopened (hwake.trans hsource) a

/-- A wait for a block begins, on a transport that is not handed back. -/
theorem Kept.listened (h : Kept cfg l) (hready : Ready transport l)
    (hback : ¬ (l.handBackAt transport).any (fun retryAt => decide (retryAt ≤ l.now)) = true) :
    Kept cfg (l.note (.listened transport l.now)) := by
  refine ⟨h.config, h.counted, h.retries, h.waits, h.spaced, ?_, ?_⟩
  · exact fun r hr hlt => (h.cooling r hr hlt).note nofun
  · intro hauto
    refine ⟨fun s hs => ?_, h.excused hauto⟩
    rcases hs with hs | hs
    · cases hs
    · cases hs
      have hmode := h.mode.trans hauto
      obtain ⟨r, hr⟩ := hready.polls rfl hmode
      have hlt : l.now < r := by
        simpa [Loop.handBackAt, TransportPolicy.streamRetryAt, hmode, hr] using hback
      exact ⟨r, hlt, h.cooling r hr hlt⟩

/-- A block was delivered: its transport works. -/
theorem Inv.block (h : Inv cfg l) (transport : Transport) :
    Inv cfg { l.note (.block transport) with policy := l.policy.onBlock transport } := by
  have hretry : (l.policy.onBlock transport).retryAt = l.policy.retryAt := by
    cases transport <;> rfl
  have hconfig : (l.policy.onBlock transport).toConfig = l.policy.toConfig := by
    cases transport <;> rfl
  have hdue : (l.policy.onBlock transport).due = l.policy.due := congrArg (Option.getD · 0) hretry
  have hkept := h.kept
  constructor
  · refine ⟨hconfig.trans hkept.config, ?_, fun hauto => hretry.trans (hkept.retries hauto), ?_,
      hkept.spaced, ?_, ?_⟩
    · cases transport with
      | stream => rfl
      | poll => exact hkept.counted
    · show notBefore cfg l.log ≤ max l.now (max l.openAt (l.policy.onBlock transport).due)
      rw [hdue]
      exact hkept.waits
    · exact fun r hr hlt => (hkept.cooling r (hretry.symm.trans hr) hlt).note nofun
    · exact fun hauto => (hkept.excused hauto).note nofun nofun
  · intro t ht
    have hready := h.ready t ht
    refine ⟨hready.opened, fun hstream => ?_, fun hpoll hauto => ?_⟩
    · show (l.policy.onBlock transport).due ≤ l.now
      rw [hdue]
      exact hready.due hstream
    · obtain ⟨r, hr⟩ := hready.polls hpoll ((congrArg Config.mode hconfig).symm.trans hauto)
      exact ⟨r, hretry.trans hr⟩

theorem Inv.later {l' : Loop} (h : Inv cfg l) (hpolicy : l'.policy = l.policy)
    (hlog : l'.log = l.log) (hnow : l.now ≤ l'.now) (hopen : l'.openAt = l.openAt)
    (hsource : l'.source = l.source) : Inv cfg l' :=
  ⟨h.kept.later hpolicy hlog hnow hopen,
    fun t ht => (h.ready t (hsource.symm.trans ht)).later hpolicy hnow hopen⟩

theorem Inv.stalled (h : Inv cfg l) (hready : Ready transport l) (a : Answers) :
    Inv cfg (l.stalled transport a) := by
  have hasked : Inv cfg (l.pass a.asking) :=
    Inv.later h rfl rfl (Nat.le_add_right _ _) rfl rfl
  unfold Loop.stalled
  dsimp only
  split
  · exact hasked
  · split
    · exact Kept.closed (Kept.later (hasked.kept.pass a.working) rfl rfl le_rfl rfl) rfl
    · split
      · exact hasked.kept.failed_inv (hready.pass a.asking) _ _
      · exact hasked

theorem Kept.undecodable (h : Kept cfg l) (hready : Ready transport l) (a : Answers) :
    Inv cfg (l.undecodable transport a) := by
  have hnoted (skip : Bool) (malformed : MalformedStreak) :
      Kept cfg { l.note (.undecodable transport l.next skip) with
        source := none
        malformed := malformed } :=
    ⟨h.config, h.counted, h.retries, h.waits, h.spaced,
      fun r hr hlt => (h.cooling r hr hlt).note nofun,
      fun hauto => (h.excused hauto).note nofun nofun⟩
  unfold Loop.undecodable
  dsimp only
  split
  · have hworked := (hnoted (l.malformed.record l.next transport l.policy.mode).1
      (l.malformed.record l.next transport l.policy.mode).2).pass a.working
    have hopened := hready.opened.trans (Nat.le_add_right l.now a.working)
    exact Kept.closed (Kept.later (hworked.openAt hopened le_rfl) rfl rfl le_rfl rfl) rfl
  · exact (hnoted _ _).sourceFailed (Ready.later hready rfl le_rfl rfl) rfl _ a

theorem Inv.handle (h : Inv cfg l) (hready : Ready transport l) (a : Answers) :
    Inv cfg (l.handle transport a) := by
  unfold Loop.handle
  split
  · have hblock := h.block transport
    exact Inv.later hblock rfl rfl (Nat.le_add_right _ _) rfl rfl
  · exact h.kept.undecodable hready a
  · have hkept : Kept cfg { l with source := none } := Kept.later h.kept rfl rfl le_rfl rfl
    exact hkept.sourceFailed (Ready.later hready rfl le_rfl rfl) rfl _ a
  · split
    · exact h
    · exact h.stalled hready a

theorem Inv.receive (h : Inv cfg l) (hsource : l.source = some transport) (a : Answers) :
    Inv cfg (l.receive transport a) := by
  have hready := h.ready transport hsource
  unfold Loop.receive
  split
  · have hclosed := h.kept.openAt hready.opened le_rfl
    exact Kept.closed (Kept.later hclosed rfl rfl le_rfl rfl) rfl
  · have hkept := (h.kept.listened hready ‹_›).pass a.receiving
    have hready' : Ready transport ((l.note (.listened transport l.now)).pass a.receiving) :=
      Ready.later hready rfl (Nat.le_add_right _ _) rfl
    have hinv : Inv cfg ((l.note (.listened transport l.now)).pass a.receiving) := by
      refine ⟨hkept, fun t ht => ?_⟩
      cases hsource.symm.trans ht
      exact hready'
    exact hinv.handle hready' a

theorem Inv.round (h : Inv cfg l) (a : Answers) : Inv cfg (l.round a) := by
  unfold Loop.round
  split
  · exact h.kept.reopen ‹_› a
  · exact h.receive ‹_› a

theorem Inv.start (cfg : Config) (next now : Nat) : Inv cfg (Loop.start cfg next now) := by
  refine Kept.closed ⟨rfl, rfl, fun _ => rfl, Nat.zero_le _, trivial, nofun, fun _ => trivial⟩ rfl

theorem Inv.run (rounds : List Answers) : ∀ {l : Loop}, Inv cfg l → Inv cfg (l.run rounds) := by
  induction rounds with
  | nil => exact fun h => h
  | cons a rounds ih => exact fun h => ih (h.round a)

end Rounds

/-! ## Every run -/

/-- However a run goes, the stream is not tried again before the cooldown of any failure
the policy was told of is over. -/
theorem stream_waits_out_failures (cfg : Config) (next now : Nat) (rounds : List Answers)
    {newer between older : List Event} {kind : FailureKind} {s t : Nat}
    (hlog : ((Loop.start cfg next now).run rounds).log =
      newer ++ .tried .stream s :: (between ++ .failed .stream kind t :: older)) :
    t + cooldown cfg kind (streak (.failed .stream kind t :: older)) ≤ s := by
  have hspaced := (Inv.run rounds (Inv.start cfg next now)).kept.spaced
  rw [hlog] at hspaced
  exact (notBefore_le_of_failed cfg between).trans hspaced.le

namespace Demo

def auto : Config := ⟨.auto, seconds 600, seconds 300⟩

/-- A source that opens and delivers nothing. -/
def quiet : Answers := ⟨0, none, 0, none, 0, .timedOut, 0, false, none, 0, 0, 0, 0⟩

/-- The node does not serve the stream, which is tried again after five minutes of
polling. -/
def refused : List Answers :=
  [{ quiet with opened := some (.status .unimplemented) }, quiet,
    { quiet with receiving := seconds 300 }, quiet, quiet]

end Demo

theorem stream_waits_out_failures_refused :
    0 + cooldown Demo.auto .refused (streak [.failed .stream .refused 0, .tried .stream 0]) ≤
      seconds 300 :=
  stream_waits_out_failures Demo.auto 5 0 Demo.refused
    (show _ = ([] : List Event) ++ .tried .stream (seconds 300) ::
      ([.listened .poll 0, .tried .poll 0] ++ .failed .stream .refused 0 :: [.tried .stream 0]) from
      by decide +kernel)

/-- However a run goes in `auto` mode, block watch opens and reads the polling transport
only while the stream is left alone after a failure: a refusal, a ban, or another
failure, the fifth or a later one in a row. -/
theorem polls_only_in_a_cooldown {cfg : Config} (hauto : cfg.mode = .auto) (next now : Nat)
    (rounds : List Answers) {newer older : List Event} {e : Event} {s : Nat}
    (he : e.PollsAt s)
    (hlog : ((Loop.start cfg next now).run rounds).log = newer ++ e :: older) :
    ∃ endsAt, s < endsAt ∧ Cooling cfg older endsAt := by
  have hexcused := (Inv.run rounds (Inv.start cfg next now)).kept.excused hauto
  rw [hlog] at hexcused
  exact hexcused.cooling s he

theorem polls_only_in_a_cooldown_refused :
    ∃ endsAt, 0 < endsAt ∧
      Cooling Demo.auto [.tried .poll 0, .failed .stream .refused 0, .tried .stream 0] endsAt :=
  polls_only_in_a_cooldown (show Demo.auto.mode = .auto from rfl) 5 0 Demo.refused (.inr rfl)
    (show _ = ([.tried .stream (seconds 300)] : List Event) ++ .listened .poll 0 ::
      [.tried .poll 0, .failed .stream .refused 0, .tried .stream 0] from by decide +kernel)

/-! ## Blocks that cannot be decoded -/

/-- The failures to decode that a log records: over which transport, of which block,
and whether the block was skipped then. -/
def decodes : List Event → List (Transport × Nat × Bool)
  | [] => []
  | .undecodable transport blockNum skipped :: log => (transport, blockNum, skipped) :: decodes log
  | _ :: log => decodes log

/-- How often `blockNum` could not be decoded over the stream and over polling, since
the last failure to decode another block. -/
def attempts (blockNum : Nat) : List (Transport × Nat × Bool) → Nat × Nat
  | [] => (0, 0)
  | (transport, other, _) :: failures =>
    if other = blockNum then
      match transport with
      | .stream => ((attempts blockNum failures).1 + 1, (attempts blockNum failures).2)
      | .poll => ((attempts blockNum failures).1, (attempts blockNum failures).2 + 1)
    else (0, 0)

/-- Whether so many attempts over the stream and over polling are enough. -/
def Enough (mode : TransportMode) (tries : Nat × Nat) : Prop :=
  Consumer.malformedBlockAttempts ≤ tries.1 + tries.2 ∧
    (mode = .auto → 0 < tries.1 ∧ 0 < tries.2)

/-- Every block in the log was skipped exactly when its attempts were enough. -/
def SkippedWhenEnough (mode : TransportMode) : List (Transport × Nat × Bool) → Prop
  | [] => True
  | (transport, blockNum, skipped) :: failures =>
    (skipped = true ↔
        Enough mode (attempts blockNum ((transport, blockNum, skipped) :: failures))) ∧
      SkippedWhenEnough mode failures

/-- The streak is the one of the log. -/
structure Counted (cfg : Config) (l : Loop) : Prop where
  mode : l.policy.mode = cfg.mode
  streak : ∀ b, attempts b (decodes l.log) =
    if b = l.malformed.block then (l.malformed.stream, l.malformed.poll) else (0, 0)
  skipped : SkippedWhenEnough cfg.mode (decodes l.log)

section Decoding

variable {cfg : Config} {l l' : Loop} {transport : Transport} {kind : FailureKind} {jitter : Nat}
  {error : SourceError} {a : Answers}

/-- A step that leaves the streak alone. -/
theorem Counted.aside (h : Counted cfg l) (hmode : l'.policy.mode = l.policy.mode)
    (hmalformed : l'.malformed = l.malformed) (hdecodes : decodes l'.log = decodes l.log) :
    Counted cfg l' := by
  refine ⟨hmode.trans h.mode, ?_, ?_⟩
  · rw [hdecodes, hmalformed]
    exact h.streak
  · rw [hdecodes]
    exact h.skipped

theorem onFailure_mode (p : TransportPolicy) (transport : Transport) (kind : FailureKind)
    (now : Nat) : (p.onFailure transport kind now).2.mode = p.mode := by
  cases transport with
  | poll => rfl
  | stream =>
    by_cases hauto : p.mode = .auto
    · exact congrArg Config.mode (onFailure_auto p hauto kind now 0).config
    · exact congrArg Config.mode (onFailure_stream p hauto kind now 0).config

theorem Counted.failed (h : Counted cfg l) : Counted cfg (l.failed transport kind jitter) :=
  h.aside (onFailure_mode _ _ _ _) rfl rfl

theorem Counted.sourceFailed (h : Counted cfg l) :
    Counted cfg (l.sourceFailed transport error a) := by
  unfold Loop.sourceFailed
  dsimp only
  split
  · obtain ⟨gone, hgone⟩ := goneConfirmed_eq (l.pass a.asking)
    rw [hgone]
    split
    · exact h.aside rfl rfl rfl
    · exact Counted.failed (h.aside rfl rfl rfl)
  · exact Counted.failed (h.aside rfl rfl rfl)

theorem Counted.reopen (h : Counted cfg l) : Counted cfg (l.reopen a) := by
  have hwake : Counted cfg (l.wake a) := by
    unfold Loop.wake
    dsimp only
    split <;> exact h.aside rfl rfl rfl
  unfold Loop.reopen Loop.openSource
  dsimp only
  split
  · exact hwake.aside rfl rfl rfl
  · split
    · exact hwake.aside rfl rfl rfl
    · exact Counted.sourceFailed (hwake.aside rfl rfl rfl)

theorem Counted.stalled (h : Counted cfg l) : Counted cfg (l.stalled transport a) := by
  unfold Loop.stalled
  dsimp only
  split
  · exact h.aside rfl rfl rfl
  · split
    · exact h.aside rfl rfl rfl
    · split
      · exact Counted.failed (h.aside rfl rfl rfl)
      · exact h.aside rfl rfl rfl

/-- The streak after one more failure, and whether that is enough. -/
theorem record_spec (streak : MalformedStreak) (b : Nat) (transport : Transport)
    (mode : TransportMode) (failures : List (Transport × Nat × Bool)) (skipped : Bool)
    (h : ∀ b, attempts b failures =
      if b = streak.block then (streak.stream, streak.poll) else (0, 0)) :
    let r := streak.record b transport mode
    (r.1 = true ↔ Enough mode (attempts b ((transport, b, skipped) :: failures))) ∧
      ∀ b', attempts b' ((transport, b, skipped) :: failures) =
        if b' = r.2.block then (r.2.stream, r.2.poll) else (0, 0) := by
  have hb : attempts b failures =
      if streak.block = b then (streak.stream, streak.poll) else (0, 0) := by
    rw [h b]
    exact if_congr eq_comm rfl rfl
  constructor
  · cases transport <;> cases mode <;> by_cases hsame : streak.block = b <;>
      simp [MalformedStreak.record, attempts, Enough, hb, hsame] <;> omega
  · intro b'
    cases transport <;> by_cases hsame : streak.block = b <;> by_cases hb' : b = b' <;>
      simp_all [MalformedStreak.record, attempts] <;> omega

theorem Counted.undecodable (h : Counted cfg l) : Counted cfg (l.undecodable transport a) := by
  obtain ⟨hskip, hstreak⟩ := record_spec l.malformed l.next transport l.policy.mode
    (decodes l.log) (l.malformed.record l.next transport l.policy.mode).1 h.streak
  have hnoted : Counted cfg { l.note (.undecodable transport l.next
        (l.malformed.record l.next transport l.policy.mode).1) with
      source := none
      malformed := (l.malformed.record l.next transport l.policy.mode).2 } :=
    ⟨h.mode, hstreak, by rw [← h.mode]; exact hskip, h.skipped⟩
  unfold Loop.undecodable
  dsimp only
  split
  · exact hnoted.aside rfl rfl rfl
  · exact hnoted.sourceFailed

theorem Counted.handle (h : Counted cfg l) : Counted cfg (l.handle transport a) := by
  unfold Loop.handle
  split
  · refine h.aside ?_ rfl rfl
    cases transport <;> rfl
  · exact h.undecodable
  · exact Counted.sourceFailed (h.aside rfl rfl rfl)
  · split
    · exact h
    · exact h.stalled

theorem Counted.round (h : Counted cfg l) (a : Answers) : Counted cfg (l.round a) := by
  unfold Loop.round
  split
  · exact h.reopen
  · unfold Loop.receive
    split
    · exact h.aside rfl rfl rfl
    · exact Counted.handle (h.aside rfl rfl rfl)

theorem Counted.run (rounds : List Answers) :
    ∀ {l : Loop}, Counted cfg l → Counted cfg (l.run rounds) := by
  induction rounds with
  | nil => exact fun h => h
  | cons a rounds ih => exact fun h => ih (h.round a)

theorem SkippedWhenEnough.iff {mode : TransportMode} {b : Nat} {skipped : Bool}
    {older : List (Transport × Nat × Bool)} :
    ∀ {newer : List (Transport × Nat × Bool)},
      SkippedWhenEnough mode (newer ++ (transport, b, skipped) :: older) →
        (skipped = true ↔ Enough mode (attempts b ((transport, b, skipped) :: older)))
  | [], h => h.1
  | _ :: _, h => h.2.iff

theorem decodes_append (newer older : List Event) :
    decodes (newer ++ older) = decodes newer ++ decodes older := by
  induction newer with
  | nil => rfl
  | cons e newer ih =>
    cases e with
    | undecodable transport b skipped => exact congrArg (_ :: ·) ih
    | tried | listened | block | failed => exact ih

end Decoding

/-- However a run goes, a block that could not be decoded is skipped exactly when that
was the fifth failure to decode it, or a later one, with none of another block in
between, and in `auto` mode both transports had failed to. -/
theorem undecodable_block_skipped (cfg : Config) (next now : Nat) (rounds : List Answers)
    {newer older : List Event} {transport : Transport} {b : Nat} {skipped : Bool}
    (hlog : ((Loop.start cfg next now).run rounds).log =
      newer ++ .undecodable transport b skipped :: older) :
    skipped = true ↔
      Enough cfg.mode (attempts b (decodes (.undecodable transport b skipped :: older))) := by
  have hstart : Counted cfg (Loop.start cfg next now) :=
    ⟨rfl, fun b => (ite_self (0, 0)).symm, trivial⟩
  have hskipped := (hstart.run rounds).skipped
  rw [hlog, decodes_append] at hskipped
  exact hskipped.iff

namespace Demo

/-- Block 5 cannot be decoded, five times over the stream and once over polling. -/
def garbled : List Answers :=
  (List.replicate 6 [quiet, { quiet with received := .error .malformed }]).flatten

end Demo

theorem undecodable_block_skipped_sixth :
    true = true ↔ Enough .auto (attempts 5 (decodes
      (.undecodable .poll 5 true :: ((Loop.start Demo.auto 5 0).run Demo.garbled).log.tail))) :=
  undecodable_block_skipped Demo.auto 5 0 Demo.garbled
    (show _ = ([] : List Event) ++ .undecodable .poll 5 true ::
      ((Loop.start Demo.auto 5 0).run Demo.garbled).log.tail from by decide +kernel)

end Guardian.BlockWatch.Transports
