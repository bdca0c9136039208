import Guardian.Lib.Rely
import Guardian.Replay.Authenticate

/- A signed request passes authentication at most once.

   A floor at or above its timestamp refuses a request for good, so only a purge
   could let it back in. The argument is one of margins: a purge deletes floors
   more than the session lifetime and two skews older than some clock, while a
   handler that is about to raise a floor checked its request's timestamp to
   within one skew of a clock it read not long ago. As long as the handler's
   stall and the clocks' disagreement together stay within the lifetime and one
   skew, a request whose floor is gone is too old for any handler still running
   (`Settled`).

   The check subtracts in `i64` and takes the absolute value there. For a
   timestamp exactly 2^63 ms before the clock the difference wraps to the least
   `i64`, whose absolute value is itself and below every bound: the request is
   taken for fresh, its floor is stale at once, and after the next purge the
   request passes again (`overflowing_request_accepted_twice`). -/
namespace Guardian.Replay

open Interleaving

/-! ## The arithmetic of the window -/

namespace SessionConfig

theorem toInt_windowMs (cfg : SessionConfig) :
    cfg.windowMs.toInt = (cfg.maxTtlSeconds + 600) * 1000 := by
  have hle := cfg.le_default
  have hofNat : (Int64.ofNat (cfg.maxTtlSeconds + 2 * maxTimestampSkewSecs)).toInt =
      (cfg.maxTtlSeconds + 600 : Nat) := by
    rw [Int64.toInt_ofNat_of_lt]
    · rfl
    · simp only [maxTimestampSkewSecs]
      omega
  rw [windowMs, Int64.toInt_mul, hofNat]
  simp only [show (1000 : Int64).toInt = 1000 from rfl]
  rw [Int.bmod_eq_of_le (by push_cast; omega) (by push_cast; omega)]
  push_cast
  rfl

end SessionConfig

/-- A clock shows a time the platform can represent. -/
theorem toInt_ofNat_clock {n : Nat} (h : n ≤ dateTimeMaxMillis) : (Int64.ofNat n).toInt = n := by
  apply Int64.toInt_ofNat_of_lt
  have hmax : dateTimeMaxMillis < 2 ^ 63 := by decide
  omega

/-- The cutoff does not saturate: every clock is past the epoch. -/
theorem toInt_staleFloorCutoffMs (nowMs : Int64) (cfg : SessionConfig) (h : 0 ≤ nowMs.toInt) :
    (staleFloorCutoffMs nowMs cfg).toInt = nowMs.toInt - cfg.windowMs.toInt := by
  have hwindow := cfg.toInt_windowMs
  have hle := cfg.le_default
  have hmax := nowMs.toInt_lt
  rw [staleFloorCutoffMs, saturatingSub, Int64.toInt_ofIntClamp]
  · rw [show Int64.minValue.toInt = -2 ^ 63 from rfl]
    omega
  · rw [show Int64.maxValue.toInt = 2 ^ 63 - 1 from rfl]
    omega

/-- Where the subtraction of the check does not overflow, a request it lets
through is at most one skew older than the clock. -/
theorem withinSkew_le {shown ts : Int64} (hshown : 0 ≤ shown.toInt)
    (hexact : shown.toInt - ts.toInt < 2 ^ 63) (h : withinSkew shown ts = true) :
    shown.toInt - ts.toInt ≤ 300000 := by
  have hts := ts.toInt_lt
  have hsub : (shown - ts).toInt = shown.toInt - ts.toInt := by
    rw [Int64.toInt_sub]
    exact Int.bmod_eq_of_le (by omega) (by omega)
  have hne : (shown - ts).toBitVec ≠ BitVec.intMin 64 := by
    intro heq
    have : (shown - ts).toInt = -2 ^ 63 := by
      rw [Int64.toInt, heq]
      rfl
    omega
  have habs : (shown - ts).abs.toInt = (shown - ts).toInt.natAbs := by
    exact BitVec.toInt_abs_eq_natAbs_of_ne_intMin hne
  simp only [withinSkew, Bool.not_eq_true', decide_eq_false_iff_not, Int64.lt_iff_toInt_lt,
    habs, hsub, show maxTimestampSkewMs.toInt = 300000 from rfl] at h
  omega

/-! ## What passing authentication means -/

section Answers
variable {answer : (o : Op) → Res o} {α β : Type}

/-- A handler that ends well went through its parts. -/
theorem ok_of_bind {x : Handler α} {f : α → Handler β} {b : β}
    (h : (x >>= f).run.eval answer = .ok b) :
    ∃ a, x.run.eval answer = .ok a ∧ (f a).run.eval answer = .ok b := by
  have hbind : (x >>= f).run.eval answer =
      (ExceptT.bindCont f (x.run.eval answer)).eval answer := Prog.eval_bind answer x.run _
  rw [hbind] at h
  cases hx : x.run.eval answer with
  | ok a =>
    rw [hx] at h
    exact ⟨a, rfl, h⟩
  | error e =>
    rw [hx] at h
    cases h

theorem ok_of_orFail {ε : Type} {x : Except ε α} {wrap : ε → AuthError} {a : α}
    (h : (Handler.orFail x wrap).run.eval answer = .ok a) : x = .ok a := by
  cases x with
  | ok b => cases h; rfl
  | error e => cases h

/-- The compare-and-set said that it raised the floor. -/
theorem consumeAuthTimestamp_ok {account signer : String} {ts : Int64} {u : Unit}
    (h : (consumeAuthTimestamp account signer ts).run.eval answer = .ok u) :
    answer (.updateLastAuthTimestampCas account signer ts) = .ok true := by
  obtain ⟨raised, hraised, h⟩ := ok_of_bind h
  obtain ⟨updated, hupdated, h⟩ := ok_of_bind h
  have hanswer : raised = answer (.updateLastAuthTimestampCas account signer ts) := by
    cases hraised
    rfl
  rw [← hanswer, ok_of_orFail hupdated]
  split at h
  · next htrue => rw [htrue]
  · cases h

/-- An account request passes only by raising the floor it is verified to. -/
theorem resolveAccountWith_ok {server : Server} {account floor : String} {creds : Credentials}
    {sessionEligible : Bool}
    (h : (resolveAccountWith server account creds sessionEligible).run.eval answer = .ok floor) :
    answer (.updateLastAuthTimestampCas account floor creds.timestamp) = .ok true := by
  obtain ⟨_, _, h⟩ := ok_of_bind h
  obtain ⟨found, _, h⟩ := ok_of_bind h
  split at h
  · cases h
  obtain ⟨ts, hts, h⟩ := ok_of_bind h
  have hts' : ts = creds.timestamp := by
    obtain ⟨_, _, hts⟩ := ok_of_bind hts
    split at hts
    · cases hts; rfl
    · cases hts
  split at h
  · cases h
  obtain ⟨replayFloor, _, h⟩ := ok_of_bind h
  obtain ⟨_, hconsume, h⟩ := ok_of_bind h
  cases h
  rw [← hts']
  exact consumeAuthTimestamp_ok hconsume

end Answers

/-! ## The runs -/

section Runs
variable {store : FloorStore}

/-- The assumptions: every replica sweeps with the same session lifetime, clocks
disagree by at most `drift` ms, and a handler that goes for a session floor does
so at most `stall` ms after its timestamp check. -/
def promisedRuns (store : FloorStore) (cfg : SessionConfig) (drift stall : Nat) :
    Guard Op Request (World store) Choice Act where
  spawn := fun req _ =>
    match req with
    | .sweep server => server.config.maxTtlSeconds == cfg.maxTtlSeconds
    | _ => true
  act := fun _ _ => true
  call := fun pid op ch w =>
    match op, ch with
    | .now _, .clock ahead => decide (ahead ≤ drift)
    | .updateLastAuthTimestampCas account signer _, _ =>
      !store.isSessionFloor (store.cell account signer) ||
        decide (w.time ≤ (w.checked pid).time + stall)
    | _, _ => true

/-- Besides, no session request is stamped so long before the clock it is
checked against that the difference overflows. -/
def exactRuns (store : FloorStore) (cfg : SessionConfig) (drift stall : Nat) :
    Guard Op Request (World store) Choice Act where
  spawn := (promisedRuns store cfg drift stall).spawn
  act := fun _ _ => true
  call := fun pid op ch w => (promisedRuns store cfg drift stall).call pid op ch w &&
    match op with
    | .updateLastAuthTimestampCas account signer ts =>
      !store.isSessionFloor (store.cell account signer) ||
        decide ((w.checked pid).shown.toInt - ts.toInt < 2 ^ 63)
    | _ => true

/-- What a call does to the world. -/
theorem exec_cases {pid : Nat} {op : Op} {ch : Choice} {w w' : World store} {r : Res op}
    (h : exec pid op ch w = some (r, w')) :
    (w' = w ∧ ∀ accepted, noteAccepted pid op ch w accepted = accepted) ∨
    (∃ use ahead, op = .now use ∧ ch = .clock ahead ∧ w.time + ahead ≤ dateTimeMaxMillis ∧
      w' = (w.read pid use ahead).2) ∨
    (∃ account signer ts, op = .updateLastAuthTimestampCas account signer ts ∧
      (ch = .done ∨ ch = .lost) ∧
      w' = { w with floors := (store.cas account signer ts w.floors).2 }) ∨
    (∃ beforeMs, op = .purgeSessionFloors beforeMs ∧
      w' = { w with floors := store.purge beforeMs w.floors }) := by
  cases op with
  | now use =>
    cases ch with
    | clock ahead =>
      simp only [exec] at h
      split at h
      · next hle => cases h; exact .inr (.inl ⟨use, ahead, rfl, rfl, hle, rfl⟩)
      · cases h
    | _ => cases h
  | updateLastAuthTimestampCas account signer ts =>
    cases ch with
    | done => cases h; exact .inr (.inr (.inl ⟨account, signer, ts, rfl, .inl rfl, rfl⟩))
    | lost => cases h; exact .inr (.inr (.inl ⟨account, signer, ts, rfl, .inr rfl, rfl⟩))
    | failed => cases h; exact .inl ⟨rfl, fun _ => rfl⟩
    | _ => cases h
  | purgeSessionFloors beforeMs =>
    cases ch with
    | done => cases h; exact .inr (.inr (.inr ⟨beforeMs, rfl, rfl⟩))
    | lost => cases h; exact .inr (.inr (.inr ⟨beforeMs, rfl, rfl⟩))
    | failed => cases h; exact .inl ⟨rfl, fun _ => rfl⟩
    | _ => cases h
  | getMetadata account => cases ch <;> cases h; exact .inl ⟨rfl, fun _ => rfl⟩
  | findSession publicKey now => cases ch <;> cases h; exact .inl ⟨rfl, fun _ => rfl⟩
  | admitConfiguration account => cases ch <;> cases h; exact .inl ⟨rfl, fun _ => rfl⟩
  | createMetadata account => cases ch <;> cases h; exact .inl ⟨rfl, fun _ => rfl⟩

@[simp] theorem World.read_floors (pid : Nat) (use : ClockUse) (ahead : Nat) (w : World store) :
    (w.read pid use ahead).2.floors = w.floors := by cases use <;> rfl

@[simp] theorem World.read_time (pid : Nat) (use : ClockUse) (ahead : Nat) (w : World store) :
    (w.read pid use ahead).2.time = w.time := by cases use <;> rfl

theorem World.read_checked_of_ne {pid q : Nat} (hne : q ≠ pid) (use : ClockUse) (ahead : Nat)
    (w : World store) : (w.read pid use ahead).2.checked q = w.checked q := by
  cases use with
  | timestampCheck => exact Function.update_of_ne hne ..
  | sessionLookup => rfl
  | floorSweep => rfl

/-! ## What a handler knows -/

section Handlers
variable (store : FloorStore) (cfg : SessionConfig) (drift : Nat)

/-- A handler goes for a floor only with a timestamp its check let through, and
a sweep deletes only floors a whole window older than some clock. -/
def knowledge : Rely Op (World store) where
  inv := fun w => ∀ pid, (w.checked pid).time ≤ (w.checked pid).shown.toInt
  rely := fun pid w w' => w.time ≤ w'.time ∧ w'.checked pid = w.checked pid
  ok := fun pid op w =>
    match op with
    | .updateLastAuthTimestampCas _ _ ts => withinSkew (w.checked pid).shown ts = true
    | .purgeSessionFloors beforeMs => beforeMs.toInt + cfg.windowMs.toInt ≤ w.time + drift
    | _ => True
  refl := fun _ => ⟨Nat.le_refl _, rfl⟩
  trans := fun h h' => ⟨Nat.le_trans h.1 h'.1, h'.2.trans h.2⟩

variable {store cfg drift} {G : Guard Op Request (World store) Choice Act}

theorem World.read_inv {w : World store} {pid ahead : Nat} {use : ClockUse}
    (hle : w.time + ahead ≤ dateTimeMaxMillis) (hw : (knowledge store cfg drift).inv w) :
    (knowledge store cfg drift).inv (w.read pid use ahead).2 := by
  intro q
  cases use with
  | timestampCheck =>
    by_cases hq : q = pid
    · subst hq
      simp only [World.read, Function.update_self]
      rw [toInt_ofNat_clock hle]
      omega
    · rw [World.read_checked_of_ne hq]
      exact hw q
  | sessionLookup => exact hw q
  | floorSweep => exact hw q

theorem knowledge_kept :
    (knowledge store cfg drift).Kept (machine store) G (fun _ _ _ => True) where
  call := by
    intro pid op ch w r w' _ _ _ hx hw
    obtain ⟨rfl, -⟩ | ⟨use, ahead, rfl, _, hle, rfl⟩ | ⟨account, signer, ts, rfl, _, rfl⟩ |
      ⟨beforeMs, rfl, rfl⟩ := exec_cases hx
    · exact ⟨hw, fun _ => ⟨Nat.le_refl _, rfl⟩⟩
    · refine ⟨World.read_inv hle hw, fun {q} hq => ⟨?_, World.read_checked_of_ne hq ..⟩⟩
      rw [World.read_time]
    · exact ⟨hw, fun _ => ⟨Nat.le_refl _, rfl⟩⟩
    · exact ⟨hw, fun _ => ⟨Nat.le_refl _, rfl⟩⟩
  act := by
    intro a w w' _ hx hw
    cases a with
    | tick ms =>
      cases hx
      exact ⟨hw, fun {q} => ⟨Nat.le_add_right _ _, rfl⟩⟩

/-- Calls before the timestamp check, and calls a sweep does not make. -/
def Unchecked : Op → Prop
  | .now _ => False
  | .updateLastAuthTimestampCas _ _ _ => False
  | .purgeSessionFloors _ => False
  | _ => True

/-- Calls after the check of a timestamp: only this timestamp is consumed. -/
def Afterwards (ts : Int64) : Op → Prop
  | .now use => use ≠ .timestampCheck
  | .updateLastAuthTimestampCas _ _ ts' => ts' = ts
  | .purgeSessionFloors _ => False
  | _ => True

theorem steady_unchecked (pid : Nat) :
    (knowledge store cfg drift).Steady (machine store) G pid Unchecked (fun _ => True) where
  stable := fun _ _ => trivial
  own := fun _ _ _ _ _ => trivial
  ok := by
    intro op w hop _ _
    cases op <;> trivial

/-- No later call of the handler reads the clock its check read. -/
theorem steady_afterwards (pid : Nat) (ts : Int64) :
    (knowledge store cfg drift).Steady (machine store) G pid (Afterwards ts)
      (fun w => withinSkew (w.checked pid).shown ts = true) where
  stable := by
    intro w w' hrely hF
    rw [hrely.2]
    exact hF
  own := by
    intro op ch r w w' hop _ hx _ hF
    obtain ⟨rfl, -⟩ | ⟨use, ahead, rfl, _, hle, rfl⟩ | ⟨account, signer, ts', rfl, _, rfl⟩ |
      ⟨beforeMs, rfl, rfl⟩ := exec_cases hx
    · exact hF
    · cases use with
      | timestampCheck => exact absurd rfl hop
      | sessionLookup => exact hF
      | floorSweep => exact hF
    · exact hF
    · exact absurd hop id
  ok := by
    intro op w hop _ hF
    cases op with
    | updateLastAuthTimestampCas account signer ts' =>
      obtain rfl : ts' = ts := hop
      exact hF
    | purgeSessionFloors beforeMs => exact absurd hop id
    | _ => trivial

section Calls
variable {P : Op → Prop} {ε α : Type}

theorem makes_orFail (x : Except ε α) (wrap : ε → AuthError) : Makes P (Handler.orFail x wrap) := by
  cases x with
  | ok a => exact Makes.pure' a
  | error e => exact Makes.throw' _

theorem makes_call {o : Op} (h : P o) : Makes P (Handler.call o) := Makes.op' h

theorem authenticateDelegatedSigner_makes (server : Server) (creds : Credentials) (message : Nat)
    (ts : Int64) : Makes (Afterwards ts) (authenticateDelegatedSigner server creds message) := by
  refine (makes_orFail _ _).bind' fun publicKey => (makes_orFail _ _).bind' fun _ => ?_
  refine (makes_call (P := Afterwards ts) (o := .now .sessionLookup) nofun).bind' fun now => ?_
  refine (makes_call (P := Afterwards ts) (o := .findSession publicKey now) trivial).bind'
    fun found => ?_
  exact (makes_orFail _ _).bind' fun session => Makes.pure' _

theorem verifySessionRequest_makes (server : Server) (account : String) (metadata : StoredAccount)
    (creds : Credentials) (sessionEligible : Bool) (ts : Int64) :
    Makes (Afterwards ts)
      (verifySessionRequest server account metadata creds sessionEligible) := by
  refine (makes_orFail _ _).bind' fun message => ?_
  refine (authenticateDelegatedSigner_makes server creds message ts).bind' fun (_, session) => ?_
  dsimp only
  split
  · exact Makes.throw' _
  · split
    · exact Makes.throw' _
    · split
      · exact Makes.throw' _
      · exact Makes.pure' _

theorem verifyCredentials_makes (server : Server) (account : String) (metadata : StoredAccount)
    (creds : Credentials) (sessionEligible : Bool) (ts : Int64) :
    Makes (Afterwards ts)
      (verifyCredentials server account metadata creds sessionEligible) := by
  unfold verifyCredentials
  split
  · exact (verifySessionRequest_makes ..).bind' fun _ => Makes.pure' _
  · exact (makes_orFail _ _).bind' fun _ => Makes.pure' _

theorem consumeAuthTimestamp_makes (account signer : String) (ts : Int64) :
    Makes (Afterwards ts) (consumeAuthTimestamp account signer ts) := by
  refine (makes_call (P := Afterwards ts) (o := .updateLastAuthTimestampCas account signer ts)
    rfl).bind' fun answer => (makes_orFail _ _).bind' fun updated => ?_
  split
  · exact Makes.pure' _
  · exact Makes.throw' _

end Calls

/-- The handler is verified, whatever it answers. -/
abbrev Verified (cfg : SessionConfig) (drift : Nat) (G : Guard Op Request (World store) Choice Act) (pid : Nat) {α : Type}
    (x : Handler α) (w : World store) : Prop :=
  (knowledge store cfg drift).Ensures (machine store) G pid x (fun _ _ => True) (fun _ => True) w

/-- After the check, the rest of a handler may consume this timestamp. -/
theorem validateRequestTimestamp_ensures {pid : Nat} {w : World store} (creds : Credentials)
    {β : Type} {f : Int64 → Handler β} (hf : Makes (Afterwards creds.timestamp) (f creds.timestamp)) :
    Verified cfg drift G pid (validateRequestTimestamp creds >>= f) w := by
  refine Rely.Ensures.bind' ?_
  refine Rely.Ensures.bind' (Rely.Ensures.op' fun w₁ _ _ => ⟨trivial, ?_⟩)
  intro ch shown w₂ _ hx _
  have hshown : (w₂.checked pid).shown = shown := by
    cases ch with
    | clock ahead =>
      simp only [machine, exec] at hx
      split at hx
      · cases hx
        simp
      · cases hx
    | _ => cases hx
  split
  · next hskew =>
    refine Rely.Ensures.pure' ?_
    refine Rely.Ensures.mono (Rely.Ensures.frame (steady_afterwards pid creds.timestamp) hf ?_
      (fun _ => trivial)) fun _ _ _ => trivial
    rw [hshown]
    exact hskew
  · exact Rely.Ensures.throw' _ trivial

theorem resolveAccountWith_verified (server : Server) (account : String) (creds : Credentials)
    (sessionEligible : Bool) (pid : Nat) (w : World store) :
    Verified cfg drift G pid
      (resolveAccountWith server account creds sessionEligible) w := by
  refine Rely.Ensures.seq (steady_unchecked pid)
    (makes_call (P := Unchecked) (o := .getMetadata account) trivial) trivial (fun _ => trivial)
    fun answer w₁ _ => ?_
  refine Rely.Ensures.seq (steady_unchecked pid) (makes_orFail _ _) trivial (fun _ => trivial)
    fun found w₂ _ => ?_
  split
  · exact Rely.Ensures.throw' _ trivial
  · refine validateRequestTimestamp_ensures creds ?_
    split
    · exact Makes.throw' _
    · refine (verifyCredentials_makes ..).bind' fun replayFloor => ?_
      exact (consumeAuthTimestamp_makes ..).bind' fun _ => Makes.pure' _

theorem authenticateConfiguration_verified (server : Server) (account : String)
    (creds : Credentials) (auth : Auth) (pid : Nat) (w : World store) :
    Verified cfg drift G pid
      (authenticateConfiguration server account creds auth) w := by
  unfold authenticateConfiguration
  split
  · refine validateRequestTimestamp_ensures creds ((makes_orFail _ _).bind' fun message => ?_)
    exact (authenticateDelegatedSigner_makes ..).bind' fun _ => Makes.throw' _
  · refine validateRequestTimestamp_ensures creds ?_
    refine (makes_call (P := Afterwards creds.timestamp) (o := .getMetadata account) trivial).bind'
      fun answer => (makes_orFail _ _).bind' fun existing => ?_
    refine (makes_call (P := Afterwards creds.timestamp) (o := .admitConfiguration account)
      trivial).bind' fun admitted => ?_
    split
    · refine (makes_orFail _ _).bind' fun signer => ?_
      have hconsume : Makes (Afterwards creds.timestamp) (do
          consumeAuthTimestamp account (signerCommitment signer) creds.timestamp
          return signerCommitment signer) :=
        (consumeAuthTimestamp_makes ..).bind' fun _ => Makes.pure' _
      dsimp only
      split
      · refine (makes_call (P := Afterwards creds.timestamp) (o := .createMetadata account)
          trivial).bind' fun _ => (makes_orFail _ _).bind' fun _ => hconsume
      · exact hconsume
    · exact Makes.throw' _

end Handlers

section Once
variable {cfg : SessionConfig} {drift stall : Nat}

theorem sweepSessionFloors_verified {server : Server} (pid : Nat) (w : World store)
    (hserver : server.config.maxTtlSeconds = cfg.maxTtlSeconds) :
    Verified cfg drift (exactRuns store cfg drift stall) pid
      (sweepSessionFloors server) w := by
  refine Rely.Ensures.bind' (Rely.Ensures.op' fun w₁ _ _ => ⟨trivial, ?_⟩)
  intro ch shown w₂ hg hx _
  cases ch with
  | clock ahead =>
    simp only [machine, exec] at hx
    split at hx
    · next hle =>
      cases hx
      have hahead : ahead ≤ drift := by simpa [exactRuns, promisedRuns] using hg
      have hshown := toInt_ofNat_clock hle
      refine Rely.Ensures.bind' (Rely.Ensures.op' fun w₃ hrely _ => ⟨?_, ?_⟩)
      · -- the clock was at most `drift` ahead of a time that has not gone back
        have htime : w₁.time ≤ w₃.time := hrely.1
        have hcutoff := toInt_staleFloorCutoffMs (Int64.ofNat (w₁.time + ahead))
          server.config (by omega)
        have hwindow : server.config.windowMs = cfg.windowMs := by
          simp only [SessionConfig.windowMs, hserver]
        show (staleFloorCutoffMs (Int64.ofNat (w₁.time + ahead)) server.config).toInt +
          cfg.windowMs.toInt ≤ w₃.time + drift
        rw [hcutoff, hwindow, hshown]
        omega
      · intro _ _ _ _ _ _
        exact Rely.Ensures.pure' trivial
    · cases hx
  | _ => cases hx

/-- Every started process is verified. -/
theorem handle_verified {req : Request} {w : World store} (pid : Nat)
    (hg : (exactRuns store cfg drift stall).spawn req w = true) :
    (knowledge store cfg drift).wp (machine store) (exactRuns store cfg drift stall) pid
      (handle req) (fun _ _ => True) w := by
  cases req with
  | account server account creds sessionEligible =>
    exact Rely.wp_bind (Rely.wp_mono
      (resolveAccountWith_verified server account creds sessionEligible pid w)
      fun _ _ _ => trivial)
  | configure server account creds auth =>
    exact Rely.wp_bind (Rely.wp_mono
      (authenticateConfiguration_verified server account creds auth pid w) fun _ _ _ => trivial)
  | sweep server =>
    have hserver : server.config.maxTtlSeconds = cfg.maxTtlSeconds := by
      simpa [exactRuns, promisedRuns] using hg
    exact Rely.wp_bind (Rely.wp_mono (sweepSessionFloors_verified pid w hserver)
      fun _ _ _ => trivial)

variable {floors : Floors store.Cell} {time : Nat} {c : Conf Op Res (World store) Request}

/-- Every call of a run is made with the knowledge it needs. -/
theorem call_ok (hr : Reach (machine store) handle (exactRuns store cfg drift stall)
      (World.start floors time) c) {pid : Nat} {req : Request} {op : Op}
    {k : Res op → Prog Op Res Unit} (hp : c.procs pid = some (req, .call op k)) :
    (knowledge store cfg drift).ok pid op c.world ∧ (knowledge store cfg drift).inv c.world := by
  have h0 : (knowledge store cfg drift).inv (World.start floors time) := fun _ => Int.le_refl 0
  obtain ⟨hinv, hprocs⟩ := Rely.reach knowledge_kept (fun _ _ => trivial) h0
    (fun _ _ hg _ => handle_verified _ hg) hr
  exact ⟨(hprocs hp _ ((knowledge store cfg drift).refl _) hinv).1, hinv⟩

/-- Every accepted request is refused by a floor that still stands, or is older
than the window a purge leaves. -/
structure Settled (cfg : SessionConfig) (drift : Nat) (w : World store)
    (accepted : List Accepted) : Prop where
  distinct : accepted.Nodup
  covered : ∀ account signer ts, (account, signer, ts) ∈ accepted →
    (∃ floor, w.floors (store.cell account signer) = some floor ∧ ts ≤ floor) ∨
    (store.isSessionFloor (store.cell account signer) = true ∧
      ts.toInt + cfg.windowMs.toInt < w.time + drift)

/-- What a compare-and-set leaves of a floor: as high or higher. -/
theorem cas_floor_mono (account signer : String) (ts : Int64) {floor : Int64} {w : World store}
    {cell : store.Cell} (h : w.floors cell = some floor) :
    ∃ floor', (store.cas account signer ts w.floors).2 cell = some floor' ∧ floor ≤ floor' := by
  obtain heq | ⟨floors', heq, hlt, hself, hne⟩ := store.cas_cases account signer ts w.floors
  · rw [heq]
    exact ⟨floor, h, Int64.le_refl floor⟩
  · rw [heq]
    by_cases hcell : cell = store.cell account signer
    · subst hcell
      exact ⟨ts, hself, Int64.le_of_lt (hlt floor h)⟩
    · exact ⟨floor, (hne cell hcell).trans h, Int64.le_refl floor⟩

namespace Settled
variable {w : World store} {accepted : List Accepted}

theorem of_le {w' : World store} (h : Settled cfg drift w accepted) (htime : w.time ≤ w'.time)
    (hfloors : w'.floors = w.floors) : Settled cfg drift w' accepted where
  distinct := h.distinct
  covered := by
    intro account signer ts hmem
    rw [hfloors]
    obtain hfloor | ⟨hsession, hold⟩ := h.covered account signer ts hmem
    · exact .inl hfloor
    · exact .inr ⟨hsession, by omega⟩

/-- Raising a floor refuses no less than before. -/
theorem raise (h : Settled cfg drift w accepted) (account signer : String) (ts : Int64) :
    Settled cfg drift { w with floors := (store.cas account signer ts w.floors).2 } accepted where
  distinct := h.distinct
  covered := by
    intro account' signer' ts' hmem
    obtain ⟨floor, hfloor, hle⟩ | hold := h.covered account' signer' ts' hmem
    · obtain ⟨floor', hfloor', hle'⟩ := cas_floor_mono account signer ts hfloor
      exact .inl ⟨floor', hfloor', Int64.le_trans hle hle'⟩
    · exact .inr hold

/-- A purge opens no floor but of requests older than the window. -/
theorem purge (h : Settled cfg drift w accepted) {beforeMs : Int64}
    (hcutoff : beforeMs.toInt + cfg.windowMs.toInt ≤ w.time + drift) :
    Settled cfg drift { w with floors := store.purge beforeMs w.floors } accepted where
  distinct := h.distinct
  covered := by
    intro account signer ts hmem
    obtain ⟨floor, hfloor, hle⟩ | hold := h.covered account signer ts hmem
    · obtain heq | ⟨_, hsession, floor', hfloor', hlt⟩ :=
        store.purge_cases beforeMs w.floors (store.cell account signer)
      · exact .inl ⟨floor, heq.trans hfloor, hle⟩
      · rw [hfloor, Option.some.injEq] at hfloor'
        rw [← hfloor'] at hlt
        rw [Int64.lt_iff_toInt_lt] at hlt
        rw [Int64.le_iff_toInt_le] at hle
        exact .inr ⟨hsession, by show ts.toInt + cfg.windowMs.toInt < w.time + drift; omega⟩
    · exact .inr hold

/-- The step the margin is for: a handler within its stall raises no floor for a
request that passed before. -/
theorem accept (h : Settled cfg drift w accepted)
    (hmargin : stall + drift ≤ (cfg.maxTtlSeconds + maxTimestampSkewSecs) * 1000)
    {pid : Nat} {account signer : String} {ts : Int64}
    (hg : (exactRuns store cfg drift stall).call pid (.updateLastAuthTimestampCas account signer ts)
      .done w = true)
    (hfresh : withinSkew (w.checked pid).shown ts = true)
    (hclock : (w.checked pid).time ≤ (w.checked pid).shown.toInt)
    (hraised : (store.cas account signer ts w.floors).1 = true) :
    Settled cfg drift { w with floors := (store.cas account signer ts w.floors).2 }
      ((account, signer, ts) :: accepted) := by
  obtain heq | ⟨floors', heq, hlt, hself, -⟩ := store.cas_cases account signer ts w.floors
  · rw [heq] at hraised
    cases hraised
  have hraise := h.raise account signer ts
  rw [heq] at hraise ⊢
  have hnew : (account, signer, ts) ∉ accepted := by
    intro hmem
    obtain ⟨floor, hfloor, hle⟩ | ⟨hsession, hold⟩ := h.covered account signer ts hmem
    · have habove := hlt floor hfloor
      rw [Int64.lt_iff_toInt_lt] at habove
      rw [Int64.le_iff_toInt_le] at hle
      omega
    · simp only [exactRuns, promisedRuns, hsession, Bool.not_true, Bool.false_or,
        Bool.and_eq_true, decide_eq_true_eq] at hg
      obtain ⟨hstall, hexact⟩ := hg
      have hage := withinSkew_le (by omega) hexact hfresh
      have hwindow := cfg.toInt_windowMs
      simp only [maxTimestampSkewSecs] at hmargin
      omega
  refine ⟨List.nodup_cons.mpr ⟨hnew, h.distinct⟩, fun account' signer' ts' hmem => ?_⟩
  obtain heq' | hmem := List.mem_cons.mp hmem
  · cases heq'
    exact .inl ⟨ts, hself, Int64.le_refl ts⟩
  · exact hraise.covered account' signer' ts' hmem

end Settled

/-- One call keeps accepted requests settled. -/
theorem settled_call (hmargin : stall + drift ≤ (cfg.maxTtlSeconds + maxTimestampSkewSecs) * 1000)
    {pid : Nat} {op : Op} {ch : Choice} {w w' : World store} {r : Res op}
    {accepted : List Accepted}
    (hK : (knowledge store cfg drift).ok pid op w ∧ (knowledge store cfg drift).inv w)
    (hg : (exactRuns store cfg drift stall).call pid op ch w = true)
    (hx : (machine store).exec pid op ch w = some (r, w')) (h : Settled cfg drift w accepted) :
    Settled cfg drift w' (noteAccepted pid op ch w accepted) := by
  obtain ⟨rfl, hnote⟩ | ⟨use, ahead, rfl, rfl, _, rfl⟩ |
    ⟨account, signer, ts, rfl, rfl | rfl, rfl⟩ | ⟨beforeMs, rfl, rfl⟩ := exec_cases hx
  · rw [hnote]
    exact h
  · exact h.of_le (by simp) (by simp)
  · simp only [noteAccepted]
    split
    · next hraised => exact h.accept hmargin hg hK.1 (hK.2 pid) hraised
    · exact h.raise account signer ts
  · exact h.raise account signer ts
  · exact h.purge hK.1

/-- No step lowers a wallet's floor. -/
theorem wallet_floor_step {G : Guard Op Request (World store) Choice Act}
    {c c' : Conf Op Res (World store) Request} {e : Event Request Choice Act}
    (hs : step (machine store) handle G c e = some c') {account : String} {bytes : List UInt8}
    {floor : Int64}
    (hfloor : c.world.floors (store.cell account (signerCommitment bytes)) = some floor) :
    ∃ floor', c'.world.floors (store.cell account (signerCommitment bytes)) = some floor' ∧
      floor ≤ floor' := by
  have hsame : ∀ {w : World store}, w.floors = c.world.floors →
      ∃ floor', w.floors (store.cell account (signerCommitment bytes)) = some floor' ∧
        floor ≤ floor' := by
    intro w hw
    rw [hw]
    exact ⟨floor, hfloor, Int64.le_refl floor⟩
  obtain ⟨pid, req, _, _, rfl⟩ | ⟨pid, ch, req, op, k, r, w, _, _, hx, rfl⟩ | ⟨a, w, _, hw, rfl⟩ :=
    step_cases hs
  · exact hsame rfl
  · obtain ⟨rfl, -⟩ | ⟨use, ahead, rfl, _, _, rfl⟩ | ⟨account', signer, ts, rfl, _, rfl⟩ |
      ⟨beforeMs, rfl, rfl⟩ := exec_cases hx
    · exact hsame rfl
    · exact hsame (World.read_floors ..)
    · exact cas_floor_mono _ _ _ hfloor
    · obtain heq | ⟨_, hsession, _⟩ := store.purge_cases beforeMs c.world.floors
        (store.cell account (signerCommitment bytes))
      · exact ⟨floor, heq.trans hfloor, Int64.le_refl floor⟩
      · rw [store.wallet_not_session] at hsession
        cases hsession
  · cases a with
    | tick ms =>
      cases hw
      exact hsame rfl

theorem wallet_floor_run {G : Guard Op Request (World store) Choice Act}
    {es : List (Event Request Choice Act)} {c c' : Conf Op Res (World store) Request}
    (hrun : runEvents (machine store) handle G c es = some c') {account : String}
    {bytes : List UInt8} {floor : Int64}
    (hfloor : c.world.floors (store.cell account (signerCommitment bytes)) = some floor) :
    ∃ floor', c'.world.floors (store.cell account (signerCommitment bytes)) = some floor' ∧
      floor ≤ floor' := by
  induction es generalizing c floor with
  | nil =>
    cases hrun
    exact ⟨floor, hfloor, Int64.le_refl floor⟩
  | cons e es ih =>
    simp only [runEvents, Option.bind_eq_some_iff] at hrun
    obtain ⟨c₁, hs, hrun⟩ := hrun
    obtain ⟨floor₁, hfloor₁, hle₁⟩ := wallet_floor_step hs hfloor
    obtain ⟨floor₂, hfloor₂, hle₂⟩ := ih hrun hfloor₁
    exact ⟨floor₂, hfloor₂, Int64.le_trans hle₁ hle₂⟩

/-- In every run, over either backend, in which stall and clock disagreement
together stay within the session lifetime and one skew, and in which no session
request is stamped 2^63 ms before the clock it is checked against: a request
passes authentication at most once, and the floor of a wallet only rises. -/
theorem accepted_at_most_once
    (hmargin : stall + drift ≤ (cfg.maxTtlSeconds + maxTimestampSkewSecs) * 1000)
    {accepted : List Accepted}
    (hr : Recorded (machine store) handle (exactRuns store cfg drift stall) noteAccepted
      (World.start floors time) [] c accepted) :
    accepted.Nodup ∧
    ∀ {es : List (Event Request Choice Act)} {c' : Conf Op Res (World store) Request},
      runEvents (machine store) handle (exactRuns store cfg drift stall) c es = some c' →
      ∀ (account : String) (bytes : List UInt8) (floor : Int64),
        c.world.floors (store.cell account (signerCommitment bytes)) = some floor →
        ∃ floor', c'.world.floors (store.cell account (signerCommitment bytes)) = some floor' ∧
          floor ≤ floor' := by
  constructor
  · have hsettled : Settled cfg drift c.world accepted := by
      refine Recorded.induct (I := fun w h => Settled cfg drift w h)
        (K := fun pid op w => (knowledge store cfg drift).ok pid op w ∧
          (knowledge store cfg drift).inv w) (fun hr hp => call_ok hr hp) ?_ ?_ ?_ hr
      · exact ⟨List.nodup_nil, fun _ _ _ hmem => by cases hmem⟩
      · intro pid op ch w r w' h hK hg hx hi
        exact settled_call hmargin hK hg hx hi
      · intro a w w' h _ hx hi
        cases a with
        | tick ms =>
          cases hx
          exact hi.of_le (Nat.le_add_right _ _) rfl
    exact hsettled.distinct
  · intro es c' hrun account bytes floor hfloor
    exact wallet_floor_run hrun hfloor

end Once
end Runs

/-! ## Runs -/

namespace Demo

/-- A server that finds every signature in order. -/
def server : Server where
  config := ⟨8 * 60 * 60, by decide, by decide⟩
  ackCommitment := fun _ => "0xac"
  network := "testnet"
  verify := fun _ _ _ => .ok [1]
  authRequestWord := fun _ _ => .ok 0
  credentialPublicKey := fun _ => .ok [2]
  verifySignature := fun _ _ _ => .ok ()
  storeKey := fun _ => List.replicate 32 2

def account : StoredAccount := ⟨.midenFalconRpo ["0x01"], false⟩

def session : MidenSession := ⟨"0x01", "0xac", "testnet"⟩

/-- A session request stamped `ts`. -/
def signed (ts : Int64) : Credentials := ⟨"0x02", "0x03", ts, .session, ""⟩

/-- The floor key of the session. -/
def floorKey : String := replayFloorKey (List.replicate 32 2)

/-- Some day's milliseconds since the epoch. -/
def noon : Nat := 1700000000000

/-- The calls of a session handler up to its compare-and-set, with a clock
`ahead` ms ahead. -/
def upToConsume (pid ahead : Nat) : List (Event Request Choice Act) :=
  [.run pid (.metadata (.ok (some account))), .run pid (.clock ahead), .run pid (.clock ahead),
   .run pid (.session (.ok session))]

/-- Two copies of one request are checked, the first is accepted, a sweep runs
`later` ms later on a replica `ahead` ms ahead, and then the second goes on. -/
def replayed (ts : Int64) (later ahead : Nat) : List (Event Request Choice Act) :=
  [.spawn 1 (.account server "acct" (signed ts) true),
   .spawn 2 (.account server "acct" (signed ts) true), .spawn 3 (.sweep server)] ++
  upToConsume 1 0 ++ upToConsume 2 0 ++
  [.run 1 .done, .env (.tick later), .run 3 (.clock ahead), .run 3 .done, .run 2 .done]

/-- The requests accepted in a run over empty Postgres floors. -/
def acceptedIn (G : Guard Op Request (World postgres) Choice Act)
    (es : List (Event Request Choice Act)) : Option (List Accepted) :=
  (runRecorded (machine postgres) handle G noteAccepted
    (Conf.start (World.start (fun _ => none) noon)) [] es).map (·.2)

theorem recorded_of_acceptedIn (G : Guard Op Request (World postgres) Choice Act)
    (es : List (Event Request Choice Act)) (accepted : List Accepted)
    (h : acceptedIn G es = some accepted) :
    ∃ c, Recorded (machine postgres) handle G noteAccepted
      (World.start (fun _ => none) noon) [] c accepted := by
  obtain ⟨⟨c, _⟩, hrun, rfl⟩ := Option.map_eq_some_iff.mp h
  exact ⟨c, Recorded.init.runRecorded hrun⟩

end Demo

/-- A request stamped 2^63 ms before the clock is accepted twice, with clocks
that agree and no time between its check and its compare-and-set. -/
theorem overflowing_request_accepted_twice :
    ∃ c accepted, Recorded (machine postgres) handle
      (promisedRuns postgres Demo.server.config 0 0) noteAccepted
      (World.start (fun _ => none) Demo.noon) [] c accepted ∧ ¬ accepted.Nodup := by
  obtain ⟨c, hr⟩ := Demo.recorded_of_acceptedIn
    (promisedRuns postgres Demo.server.config 0 0)
    (Demo.replayed (Int64.ofNat Demo.noon - Int64.minValue) 0 0)
    [("acct", Demo.floorKey, Int64.ofNat Demo.noon - Int64.minValue),
      ("acct", Demo.floorKey, Int64.ofNat Demo.noon - Int64.minValue)] (by decide +kernel)
  exact ⟨c, _, hr, by decide⟩

/-- The margin is exact: one millisecond more of stall and disagreement, and a
purge outruns a handler. -/
theorem margin_exact :
    ∃ c accepted, Recorded (machine postgres) handle
      (exactRuns postgres Demo.server.config 300000 28800001) noteAccepted
      (World.start (fun _ => none) Demo.noon) [] c accepted ∧ ¬ accepted.Nodup := by
  obtain ⟨c, hr⟩ := Demo.recorded_of_acceptedIn
    (exactRuns postgres Demo.server.config 300000 28800001)
    (Demo.replayed (Int64.ofNat (Demo.noon - 300000)) 28800001 300000)
    [("acct", Demo.floorKey, Int64.ofNat (Demo.noon - 300000)),
      ("acct", Demo.floorKey, Int64.ofNat (Demo.noon - 300000))] (by decide +kernel)
  exact ⟨c, _, hr, by decide⟩

/-- Within the margin, the replay of an accepted request is refused. -/
theorem accepted_at_most_once_replayed :
    ∃ c, Recorded (machine postgres) handle
      (exactRuns postgres Demo.server.config 300000 28800000) noteAccepted
      (World.start (fun _ => none) Demo.noon) [] c
      [("acct", Demo.floorKey, Int64.ofNat (Demo.noon - 300000))] ∧
      [("acct", Demo.floorKey, Int64.ofNat (Demo.noon - 300000))].Nodup := by
  obtain ⟨c, hr⟩ := Demo.recorded_of_acceptedIn
    (exactRuns postgres Demo.server.config 300000 28800000)
    (Demo.replayed (Int64.ofNat (Demo.noon - 300000)) 28800000 300000)
    [("acct", Demo.floorKey, Int64.ofNat (Demo.noon - 300000))] (by decide +kernel)
  exact ⟨c, hr, (accepted_at_most_once (by decide) hr).1⟩

end Guardian.Replay
