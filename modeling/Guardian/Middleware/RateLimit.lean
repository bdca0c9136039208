import Guardian.Lib.FixedWindow

/- The rate limiter both transports share (`server/src/middleware/
   rate_limit.rs`). A request spends a slot of the burst window of each of its
   burst keys, then one of the sustained window of each of its sustained keys,
   and is rejected at the first window that is full. An entry holds both windows
   of its key, though a key uses only one of them.

   A cleanup runs once a minute, ahead of a request, and drops the entries whose
   sustained window began two minutes ago. A burst key never moves its sustained
   window, so its entry goes two minutes after it was created, whether or not it
   is in use: `burst_windows_reopen` spends a burst key's budget three times
   within a second. Where no cleanup meets an open burst window, no second sees
   more than two budgets, and no minute ever does (`windows_hold`).

   Checks are taken in the order of their clock readings, which are
   `Instant`s in nanoseconds; the key texts are the source's. -/
namespace Guardian.RateLimit

abbrev Instant := Nat

/-- `Duration::from_secs`. -/
def fromSecs (n : Nat) : Nat := n * 1000000000

structure RateLimitConfig where
  enabled : Bool
  burstPerSec : Nat
  perMin : Nat
  deriving DecidableEq, Repr

inductive RateLimitType where
  | burst
  | sustained
  deriving DecidableEq, Repr

namespace RateLimitType

/-- How long a window lasts. -/
def window : RateLimitType → Nat
  | burst => fromSecs 1
  | sustained => fromSecs 60

/-- What a window lets through. -/
def limit (cfg : RateLimitConfig) : RateLimitType → Nat
  | burst => cfg.burstPerSec
  | sustained => cfg.perMin

theorem window_pos (ty : RateLimitType) : 0 < ty.window := by cases ty <;> decide

end RateLimitType

/-- The two windows of a key. -/
structure RateLimitEntry where
  burst : FixedWindow
  sustained : FixedWindow
  deriving DecidableEq, Repr

namespace RateLimitEntry

/-- `RateLimitEntry::new`, at the instant it reads. -/
def new (now : Instant) : RateLimitEntry := ⟨⟨now, 0⟩, ⟨now, 0⟩⟩

def windowOf (entry : RateLimitEntry) : RateLimitType → FixedWindow
  | .burst => entry.burst
  | .sustained => entry.sustained

/-- `burst_allows`. -/
def burstAllows (limit : Nat) (now : Instant) (entry : RateLimitEntry) : Bool × RateLimitEntry :=
  let (allowed, burst) := entry.burst.allows (fromSecs 1) limit now
  (allowed, { entry with burst := burst })

/-- `sustained_allows`. -/
def sustainedAllows (limit : Nat) (now : Instant) (entry : RateLimitEntry) :
    Bool × RateLimitEntry :=
  let (allowed, sustained) := entry.sustained.allows (fromSecs 60) limit now
  (allowed, { entry with sustained := sustained })

/-- The check of one kind. -/
def allows : RateLimitType → Nat → Instant → RateLimitEntry → Bool × RateLimitEntry
  | .burst => burstAllows
  | .sustained => sustainedAllows

end RateLimitEntry

abbrev Entries := String → Option RateLimitEntry

structure RateLimitStore where
  entries : Entries
  lastCleanup : Instant

/-- `RateLimitStore::new`. -/
def RateLimitStore.new (now : Instant) : RateLimitStore := ⟨fun _ => none, now⟩

/-- A request as the limiter sees it, and the readings of its check: its own
instant, and the one at which an entry it misses is created. -/
structure Request where
  clientIp : String
  endpoint : String
  query : Option String
  pubkey : Option String
  now : Instant
  createdAt : String → Instant

structure RateLimitRejection where
  limitType : RateLimitType
  key : String
  clientIp : String
  endpoint : String
  deriving DecidableEq, Repr

namespace Request

/-- `extract_enhanced_key`: the account of the query, or the signer of the
header. -/
def enhancedKey (req : Request) : Option String :=
  let account := (req.query.map (·.splitOn "&")).getD [] |>.find? (·.startsWith "account_id=")
  match account with
  | some pair => some ("account:" ++ (pair.drop 11).toString)
  | none => req.pubkey.map (fun value => "signer:" ++ (value.take 16).toString)

def burstKey (req : Request) : String := "ip:" ++ req.clientIp ++ "|endpoint:" ++ req.endpoint

def sustainedKey (req : Request) : String := "ip:" ++ req.clientIp

/-- The keys of one kind, the base key first. -/
def keys (req : Request) (ty : RateLimitType) : List String :=
  let base := match ty with
    | .burst => req.burstKey
    | .sustained => req.sustainedKey
  base :: (req.enhancedKey.map (base ++ "|" ++ ·)).toList

end Request

/-! ## The check -/

/-- One of the loops of `check_request`: the keys that let the request through,
and the one that did not. -/
def tryKeys (cfg : RateLimitConfig) (ty : RateLimitType) (req : Request) :
    List String → Entries → List String × Option String × Entries
  | [], entries => ([], none, entries)
  | key :: keys, entries =>
    let entry := (entries key).getD (.new (req.createdAt key))
    let (allowed, entry) := entry.allows ty (ty.limit cfg) req.now
    let entries := Function.update entries key (some entry)
    if allowed then
      let (passed, rejected, entries) := tryKeys cfg ty req keys entries
      (key :: passed, rejected, entries)
    else ([], some key, entries)

/-- The slots a check spends: the keys that let the request through. -/
abbrev Slots := RateLimitType → List String

/-- `check_request`, past its cleanup. -/
def checkRequest (cfg : RateLimitConfig) (req : Request) (store : RateLimitStore) :
    Except RateLimitRejection Unit × Slots × RateLimitStore :=
  if cfg.enabled = false then (.ok (), fun _ => [], store)
  else
    let reject (ty : RateLimitType) (key : String) : Except RateLimitRejection Unit :=
      .error ⟨ty, key, req.clientIp, req.endpoint⟩
    match tryKeys cfg .burst req (req.keys .burst) store.entries with
    | (burst, some key, entries) =>
      (reject .burst key, fun ty => if ty = .burst then burst else [],
        { store with entries := entries })
    | (burst, none, entries) =>
      match tryKeys cfg .sustained req (req.keys .sustained) entries with
      | (sustained, rejected, entries) =>
        ((rejected.map (reject .sustained)).getD (.ok ()),
          fun ty => if ty = .burst then burst else sustained, { store with entries := entries })

/-- Whether a cleanup drops the entry: its sustained window began two minutes
ago. -/
def RateLimitEntry.stale (now : Instant) (entry : RateLimitEntry) : Bool :=
  decide (fromSecs 120 ≤ now - entry.sustained.start)

/-- Whether a cleanup is due (`CLEANUP_INTERVAL_SECS`). -/
def RateLimitStore.due (elapsedAt : Instant) (store : RateLimitStore) : Bool :=
  decide (fromSecs 60 ≤ elapsedAt - store.lastCleanup)

/-- `maybe_cleanup`. -/
def maybeCleanup (elapsedAt now : Instant) (store : RateLimitStore) : RateLimitStore :=
  if store.due elapsedAt then
    { entries := fun key => (store.entries key).filter (fun entry => !entry.stale now)
      lastCleanup := now }
  else store

/-! ## Schedules -/

/-- What happens to the store. A request is its cleanup and then its check;
other requests may come between the two. -/
inductive Event where
  | cleanup (elapsedAt now : Instant)
  | check (req : Request)

def Event.now : Event → Instant
  | .cleanup _ now => now
  | .check req => req.now

/-- The store, with the instants at which each key let a request through, newest
first. -/
structure History where
  store : RateLimitStore
  admitted : RateLimitType → String → List Instant

/-- Spend the slots of a check. -/
def History.spend (h : History) (now : Instant) (slots : Slots) :
    RateLimitType → String → List Instant :=
  fun ty key => List.replicate ((slots ty).count key) now ++ h.admitted ty key

def History.step (cfg : RateLimitConfig) (h : History) : Event → History
  | .cleanup elapsedAt now => { h with store := maybeCleanup elapsedAt now h.store }
  | .check req =>
    let (_, slots, store) := checkRequest cfg req h.store
    ⟨store, h.spend req.now slots⟩

/-- The history of a schedule. -/
def History.run (cfg : RateLimitConfig) (h : History) (events : List Event) : History :=
  events.foldl (History.step cfg) h

def History.new (now : Instant) : History := ⟨.new now, fun _ _ => []⟩

/-- Clock readings do not go back. -/
def Ordered : Instant → List Event → Prop
  | _, [] => True
  | last, event :: events => last ≤ event.now ∧
      (∀ req, event = .check req → ∀ key, req.now ≤ req.createdAt key) ∧
      Ordered event.now events

/-- A cleanup meets no entry it drops with its burst window still open. -/
def Spares (store : RateLimitStore) : Event → Prop
  | .cleanup elapsedAt now => store.due elapsedAt = true → ∀ key entry,
      store.entries key = some entry → entry.stale now = true →
        entry.burst.expired (fromSecs 1) now = true
  | .check _ => True

/-- Every cleanup of a schedule does. -/
def SparesOpenBursts (cfg : RateLimitConfig) : History → List Event → Prop
  | _, [] => True
  | h, event :: events => Spares h.store event ∧ SparesOpenBursts cfg (h.step cfg event) events

/-! ## The windows -/

variable {cfg : RateLimitConfig} {ty seen : RateLimitType} {last : Instant}

namespace RateLimitEntry

/-- A check counts in the window of its kind. -/
theorem allows_same (entry : RateLimitEntry) (limit : Nat) (now : Instant) :
    (entry.allows ty limit now).1 = ((entry.windowOf ty).allows ty.window limit now).1 ∧
      (entry.allows ty limit now).2.windowOf ty =
        ((entry.windowOf ty).allows ty.window limit now).2 := by
  cases ty <;> exact ⟨rfl, rfl⟩

/-- The other window is left alone. -/
theorem allows_other (h : seen ≠ ty) (entry : RateLimitEntry) (limit : Nat) (now : Instant) :
    (entry.allows ty limit now).2.windowOf seen = entry.windowOf seen := by
  cases ty <;> cases seen <;> first
    | rfl
    | exact absurd rfl h

end RateLimitEntry

/-- The windows of kind `ty` stand for the instants `times`. -/
def Sound (cfg : RateLimitConfig) (ty : RateLimitType) (entries : Entries)
    (times : String → List Instant) (last : Instant) : Prop :=
  ∀ key, FixedWindow.Bounded ty.window (ty.limit cfg) ((entries key).map (·.windowOf ty))
    (times key) last

theorem Sound.later {entries : Entries} {times : String → List Instant}
    (h : Sound cfg ty entries times last) {last' : Instant} (hle : last ≤ last') :
    Sound cfg ty entries times last' := fun key => (h key).later hle

/-- The entry a check works on, found or created. -/
theorem Sound.entry {entries : Entries} {times : String → List Instant}
    (h : Sound cfg ty entries times last) {key : String} {created : Instant}
    (hle : last ≤ created) :
    FixedWindow.Bounded ty.window (ty.limit cfg)
      (some (((entries key).getD (.new created)).windowOf ty)) (times key) last := by
  have hkey := h key
  cases hentry : entries key with
  | some entry =>
    rw [hentry] at hkey
    exact hkey
  | none =>
    rw [hentry] at hkey
    have hnew := FixedWindow.Bounded.created hkey hle
    cases ty <;> exact hnew

/-- The instants of a kind after a loop that let the keys `passed` through. -/
def spent (ty seen : RateLimitType) (now : Instant) (passed : List String)
    (times : String → List Instant) : String → List Instant :=
  fun key => if seen = ty then List.replicate (passed.count key) now ++ times key else times key

/-- One key of a loop. -/
theorem Sound.touch {entries : Entries} {times : String → List Instant} {req : Request}
    (h : Sound cfg seen entries times last) (hlast : last ≤ req.now) {key : String}
    (hcreated : req.now ≤ req.createdAt key) {allowed : Bool} {entry : RateLimitEntry}
    (hentry : ((entries key).getD (.new (req.createdAt key))).allows ty (ty.limit cfg) req.now =
      (allowed, entry)) :
    Sound cfg seen (Function.update entries key (some entry))
      (spent ty seen req.now (if allowed then [key] else []) times) req.now := by
  intro other
  by_cases hother : other = key
  · subst hother
    have hfound : FixedWindow.Bounded seen.window (seen.limit cfg)
        (some (((entries other).getD (.new (req.createdAt other))).windowOf seen))
        (times other) last := h.entry (Nat.le_trans hlast hcreated)
    rw [Function.update_self, spent]
    by_cases hkind : seen = ty
    · subst hkind
      obtain ⟨hallowed, hwindow⟩ := @RateLimitEntry.allows_same seen
        ((entries other).getD (.new (req.createdAt other))) (seen.limit cfg) req.now
      have hbounded := hfound.allowed seen.window_pos hlast
      rw [← hallowed, ← hwindow, hentry] at hbounded
      rw [if_pos rfl]
      cases allowed <;> simpa using hbounded
    · have hsame := RateLimitEntry.allows_other hkind
        ((entries other).getD (.new (req.createdAt other))) (ty.limit cfg) req.now
      rw [hentry] at hsame
      rw [if_neg hkind, Option.map_some, hsame]
      exact hfound.later hlast
  · have hcount : (if allowed then [key] else []).count other = 0 := by
      refine List.count_eq_zero.mpr fun hmem => hother ?_
      cases allowed
      · cases hmem
      · exact List.mem_singleton.mp hmem
    rw [Function.update_of_ne hother, spent, hcount]
    have hkept := (h other).later hlast
    split
    · exact hkept
    · exact hkept

/-- A loop. -/
theorem Sound.looped {req : Request} (hcreated : ∀ key, req.now ≤ req.createdAt key)
    (ty : RateLimitType) (keys : List String) {entries : Entries}
    {times : String → List Instant} (h : Sound cfg seen entries times last)
    (hlast : last ≤ req.now) :
    Sound cfg seen (tryKeys cfg ty req keys entries).2.2
      (spent ty seen req.now (tryKeys cfg ty req keys entries).1 times) req.now := by
  induction keys generalizing entries times last with
  | nil =>
    intro key
    have hkept := (h key).later hlast
    simp only [tryKeys, spent, List.count_nil, List.replicate_zero, List.nil_append,
      ite_self]
    exact hkept
  | cons key keys ih =>
    simp only [tryKeys]
    cases hentry : ((entries key).getD (.new (req.createdAt key))).allows ty (ty.limit cfg)
        req.now with
    | mk allowed entry =>
      have htouched := h.touch hlast (hcreated key) hentry
      cases allowed with
      | false => exact htouched
      | true =>
        have hrest := ih htouched (Nat.le_refl _)
        intro other
        have hother := hrest other
        simp only [spent, if_true] at hother ⊢
        split
        · next hkind =>
          rw [if_pos hkind, if_pos hkind] at hother
          rw [← List.append_assoc, List.replicate_append_replicate] at hother
          rwa [show List.count other (key :: (tryKeys cfg ty req keys
            (Function.update entries key (some entry))).1) =
              List.count other (tryKeys cfg ty req keys
                (Function.update entries key (some entry))).1 + List.count other [key] from by
            rw [List.count_cons, List.count_singleton]]
        · next hkind =>
          rwa [if_neg hkind, if_neg hkind] at hother

/-! ## Whole schedules -/

/-- The windows of a history stand for what it admitted. -/
def History.Sound (cfg : RateLimitConfig) (ty : RateLimitType) (h : History) (last : Instant) :
    Prop :=
  RateLimit.Sound cfg ty h.store.entries (h.admitted ty) last

theorem sound_new (cfg : RateLimitConfig) (ty : RateLimitType) (start : Instant) :
    (History.new start).Sound cfg ty start := fun _ => .never _ _ _

theorem Sound.check {h : History} {req : Request} (hs : h.Sound cfg seen last)
    (hlast : last ≤ req.now) (hcreated : ∀ key, req.now ≤ req.createdAt key) :
    (h.step cfg (.check req)).Sound cfg seen req.now := by
  have hburst := Sound.looped hcreated .burst (req.keys .burst) hs hlast
  simp only [History.step, checkRequest]
  split
  · exact fun key => by simpa [History.spend] using (hs key).later hlast
  · cases hloop : tryKeys cfg .burst req (req.keys .burst) h.store.entries with
    | mk burst rest =>
      obtain ⟨rejected, entries⟩ := rest
      rw [hloop] at hburst
      have hsustained := Sound.looped hcreated .sustained (req.keys .sustained) hburst
        (Nat.le_refl _)
      cases rejected with
      | some key =>
        intro other
        have hother := hburst other
        cases seen <;> simpa [History.spend, spent] using hother
      | none =>
        intro other
        have hother := hsustained other
        cases seen <;> simpa [History.spend, spent] using hother

/-- A cleanup drops no open window of a kind it drops by, or that it spares. -/
theorem Sound.cleanup {h : History} {elapsedAt now : Instant} (hs : h.Sound cfg ty last)
    (hlast : last ≤ now) (hspares : ty = .burst → Spares h.store (.cleanup elapsedAt now)) :
    (h.step cfg (.cleanup elapsedAt now)).Sound cfg ty now := by
  simp only [History.step, maybeCleanup]
  split
  · next hdue =>
    intro key
    have hkey := hs key
    cases hentry : h.store.entries key with
    | none =>
      rw [hentry] at hkey
      simpa [hentry] using hkey.later hlast
    | some entry =>
      rw [hentry] at hkey
      by_cases hstale : entry.stale now = true
      · have hexpired : (entry.windowOf ty).expired ty.window now = true := by
          cases ty with
          | burst => exact hspares rfl hdue key entry hentry hstale
          | sustained =>
            -- a sustained window is over long before its entry is dropped
            have hold : fromSecs 120 ≤ now - entry.sustained.start := of_decide_eq_true hstale
            refine decide_eq_true (Nat.le_trans ?_ hold)
            decide
        have hdropped := FixedWindow.Bounded.dropped ty.window_pos hkey hexpired
        simpa [hentry, Option.filter, hstale] using hdropped
      · simpa [hentry, Option.filter, hstale] using hkey.later hlast
  · exact Sound.later hs hlast

theorem Sound.run {events : List Event} {h : History} (hs : h.Sound cfg ty last)
    (hordered : Ordered last events) (hspares : ty = .burst → SparesOpenBursts cfg h events) :
    ∃ last', (h.run cfg events).Sound cfg ty last' := by
  induction events generalizing h last with
  | nil => exact ⟨last, hs⟩
  | cons event events ih =>
    obtain ⟨hlast, hcreated, hrest⟩ := hordered
    have hstep : (h.step cfg event).Sound cfg ty event.now := by
      cases event with
      | cleanup elapsedAt now => exact Sound.cleanup hs hlast fun hty => (hspares hty).1
      | check req => exact Sound.check hs hlast (hcreated req rfl)
    exact ih hstep hrest fun hty => (hspares hty).2

/-- The requests a key let through within an interval of the length of its
window. -/
def History.admittedWithin (h : History) (ty : RateLimitType) (key : String) (since : Instant) :
    Nat :=
  (FixedWindow.within ty.window since (h.admitted ty key)).length

/-- In every schedule, no sustained key lets through more than two budgets in a
minute; and no burst key more than two in a second, if every cleanup finds the
burst windows of what it drops closed. -/
theorem windows_hold (cfg : RateLimitConfig) (start : Instant) (events : List Event)
    (hordered : Ordered start events) :
    (∀ key since, ((History.new start).run cfg events).admittedWithin .sustained key since ≤
      2 * cfg.perMin) ∧
    (SparesOpenBursts cfg (.new start) events → ∀ key since,
      ((History.new start).run cfg events).admittedWithin .burst key since ≤
        2 * cfg.burstPerSec) := by
  constructor
  · intro key since
    obtain ⟨_, hsound⟩ := Sound.run (sound_new cfg .sustained start) hordered nofun
    exact (hsound key).bound since
  · intro hspares key since
    obtain ⟨_, hsound⟩ := Sound.run (sound_new cfg .burst start) hordered fun _ => hspares
    exact (hsound key).bound since

namespace Demo

/-- A request, at tenths of a second since the server started. -/
def request (tenths : Nat) : Request where
  clientIp := "10.0.0.1"
  endpoint := "/delta"
  query := none
  pubkey := none
  now := tenths * 100000000
  createdAt := fun _ => tenths * 100000000

/-- A request's cleanup and its check. -/
def arrives (tenths : Nat) : List Event :=
  [.cleanup (tenths * 100000000) (tenths * 100000000), .check (request tenths)]

def twoASecond : RateLimitConfig := ⟨true, 2, 10⟩

/-- The first request's entry outlives the cleanup of the second, and meets the
next one in the middle of a burst. -/
def burst : List Event :=
  [600, 1784, 2372, 2381, 2382, 2382, 2384, 2384].flatMap arrives

end Demo

/-- A quiet key loses its entry between two requests. -/
theorem windows_hold_quiet :
    ((History.new 0).run Demo.twoASecond ([0, 1300].flatMap Demo.arrives)).admittedWithin .burst
      "ip:10.0.0.1|endpoint:/delta" 0 ≤ 2 * 2 := by
  refine (windows_hold Demo.twoASecond 0 ([0, 1300].flatMap Demo.arrives) ?_).2 ?_ _ _
  · simp [Demo.arrives, Ordered, Event.now, Demo.request]
  · refine ⟨fun hdue => absurd hdue (by decide), trivial, fun _ key entry hentry _ => ?_, trivial,
      trivial⟩
    -- every entry is from the first request, 130 seconds ago
    have hentries : ((History.new 0).run Demo.twoASecond (Demo.arrives 0)).store.entries =
        Function.update (Function.update (fun _ => none) (Demo.request 0).burstKey
          (some ⟨⟨0, 1⟩, ⟨0, 0⟩⟩)) (Demo.request 0).sustainedKey (some ⟨⟨0, 0⟩, ⟨0, 1⟩⟩) := rfl
    have hfirst : entry.burst.start = 0 := by
      have hmem := (congrFun hentries key).symm.trans hentry
      simp only [Function.update_apply] at hmem
      split at hmem
      · cases hmem
        rfl
      · split at hmem
        · cases hmem
          rfl
        · cases hmem
    simp [FixedWindow.expired, hfirst, fromSecs]

theorem burst_windows_reopen :
    ¬∀ (cfg : RateLimitConfig) (start : Instant) (events : List Event), Ordered start events →
      ∀ key since, ((History.new start).run cfg events).admittedWithin .burst key since ≤
        2 * cfg.burstPerSec := by
  intro hall
  have hbound := hall Demo.twoASecond 0 Demo.burst
    (by simp [Demo.burst, Demo.arrives, Ordered, Event.now, Demo.request])
    "ip:10.0.0.1|endpoint:/delta" 238100000000
  revert hbound
  decide +kernel

end Guardian.RateLimit
