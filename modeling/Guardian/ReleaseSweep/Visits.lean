import Guardian.Network
import Guardian.Storage
import Guardian.ReleaseSweep.Rotation

/- A visit of the release sweep (`jobs/release_sweep/sweep.rs`): the head probe,
   the stored state's own key, the candidates the chain may have reached, and
   the account's published storage. A foreign guardian key in the storage opens a
   streak; the same key at later blocks confirms it; enough confirmations
   release the account. Everything else that says where the account is now ends
   the streak.

   The sweep keeps one streak for each account, in the memory of the process. A
   visit is a function of what it reads, and reports beside its outcome what it
   saw of the account (`Seen`). A storage read that is older than the stored
   state is never evidence, nor is a block watch observation of a state the store
   has caught up with: neither ends a streak. When the sweep schedules its visits
   and how it searches the history do not enter. -/
namespace Guardian.ReleaseSweep.Visits

inductive ReleaseOrigin where
  | pushPath
  | rotation
  | blockWatch (observedBlockNum : Nat)
  deriving DecidableEq, Repr

/-- The block a storage read has to reach. -/
def ReleaseOrigin.observedBlockNum : ReleaseOrigin → Option Nat
  | .blockWatch observed => some observed
  | _ => none

inductive ReleaseWrite where
  | released
  | alreadyReleased
  | stateMoved
  | failed
  deriving DecidableEq, Repr

inductive ReleaseEvidence where
  | delta
  | switchMatch
  | chainSweep
  deriving DecidableEq, Repr

inductive KeyVerdict where
  | noBinding
  | own
  | base
  | foreign (commitment : String)
  deriving DecidableEq, Repr

structure Streak where
  guardianCommitment : String
  observations : Nat
  lastBlock : Nat
  deriving DecidableEq, Repr

inductive Observation where
  | counted (observations : Nat)
  | notNewer (observations : Nat)
  deriving DecidableEq, Repr

/-- `SweepState`, as far as one account's visits keep it: the open streak, the
block a block watch observation opened it at, and the hash of the stored
commitment whose key was checked. -/
structure SweepState where
  streak : Option Streak
  streakOrigin : Option Nat
  checkedStored : Option Nat
  deriving DecidableEq, Repr

namespace SweepState

def new : SweepState := ⟨none, none, none⟩

/-- `record_foreign_observation`. The count is a `u32` that saturates. -/
def recordForeignObservation (s : SweepState) (guardian : String) (block : Nat) :
    Observation × SweepState :=
  let opened := (.counted 1, { s with streak := some ⟨guardian, 1, block⟩, streakOrigin := none })
  match s.streak with
  | none => opened
  | some streak =>
    if streak.guardianCommitment = guardian then
      if streak.lastBlock < block then
        let observations := min (streak.observations + 1) (2 ^ 32 - 1)
        (.counted observations, { s with streak := some ⟨guardian, observations, block⟩ })
      else (.notNewer streak.observations, s)
    else opened

/-- `clear_streak`. -/
def clearStreak (s : SweepState) : SweepState := { s with streak := none, streakOrigin := none }

/-- `remember_streak_origin`: the first one wins. -/
def rememberStreakOrigin (s : SweepState) (block : Nat) : SweepState :=
  { s with streakOrigin := s.streakOrigin.or (some block) }

/-- `forget_account`. -/
def forgetAccount (s : SweepState) : SweepState := { s.clearStreak with checkedStored := none }

end SweepState

/-! ## What a visit reads -/

/-- The metadata row. -/
structure SweptRow where
  isEvm : Bool
  released : Bool
  hasPendingCandidate : Bool
  deriving DecidableEq, Repr

/-- `OnChainGuardianBinding`. -/
inductive GuardianBinding where
  | concealed
  | visible (onChainCommitment : Commitment) (guardianCommitment : Option String) (nonce : Nat)
      (blockNum : Nat)
  deriving DecidableEq, Repr

/-- `SwitchSearch`; of an executed switch, the guardian key of its post-state. -/
inductive SwitchSearch where
  | found (guardianCommitment : Option String)
  | notFound
  | historyUnavailable
  deriving DecidableEq, Repr

/-- The answers a visit gets, `none` where a call fails. A stored commitment or
state may be read twice. -/
structure Reads where
  metadata : Option (Option SweptRow)
  storedCommitment : Option (Option Commitment)
  verification : Option StateVerification
  stored : Option StateObject
  /-- The guardian key of the stored state, for the check of the stored state and
  for the comparison with the base. -/
  storedKey : Option (Option String)
  baseKey : Option (Option String)
  /-- `promoting_delta_nonce`. -/
  promotingDelta : Option (Option Nonce)
  search : Option SwitchSearch
  binding : Option GuardianBinding
  /-- `nonce_of` the stored state. -/
  nonceOf : Option (Option Nat)
  releaseWrite : ReleaseWrite
  deriving Repr

/-- What the sweep is configured with: the confirmations it asks for, this
server's key, and the hash of commitments. -/
structure Sweeper where
  confirmations : Nat
  ownCommitment : String
  commitmentHash : Commitment → Nat

/-- What a visit saw of the account. -/
inductive Seen where
  /-- The chain is at the stored state. -/
  | atStored
  /-- A block watch observation of the stored state. -/
  | reachedStored
  /-- The key in the account's published storage. -/
  | key (verdict : KeyVerdict) (blockNum : Nat)
  /-- A key, in the storage or in a candidate's post-state the chain reached, whose
  comparison with the stored state's nonce or with the base's key failed. -/
  | unclassified (guardianCommitment : Option String)
  /-- A storage read older than the stored state, or than the observed block. -/
  | behind (guardianCommitment : Option String) (blockNum : Nat)
  /-- The key of a candidate's post-state the chain reached, and how the release
  for it ended. -/
  | executed (verdict : KeyVerdict) (write : Option ReleaseWrite)
  deriving DecidableEq, Repr

/-- A visit's outcome, the state it leaves, what it saw, newest first, and the
evidence it went on to release with. -/
structure Visited where
  outcome : VisitOutcome
  sweep : SweepState
  seen : List Seen
  evidence : Option ReleaseEvidence

namespace Visited

/-- The visit ends. -/
def done (sweep : SweepState) (outcome : VisitOutcome) : Visited := ⟨outcome, sweep, [], none⟩

/-- It saw something before. -/
def after (seen : Seen) (v : Visited) : Visited := { v with seen := v.seen ++ [seen] }

end Visited

variable (sweeper : Sweeper)

/-! ## The visit -/

/-- `release`: a failed write is an error, which leaves everything as it is. -/
def release (s : SweepState) : ReleaseWrite → Option ReleaseWrite × SweepState
  | .failed => (none, s)
  | write => (some write, s.forgetAccount)

/-- `after_release`. -/
def afterRelease : ReleaseWrite → ReleaseOrigin → VisitOutcome
  | .stateMoved, .blockWatch _ => .deferred
  | _, _ => .checked

/-- A release, as the end of a visit. -/
def releaseAndEnd (s : SweepState) (write : ReleaseWrite) (origin : ReleaseOrigin)
    (evidence : ReleaseEvidence) : Visited :=
  match release s write with
  | (none, s) => ⟨.failed, s, [], some evidence⟩
  | (some write, s) => ⟨afterRelease write origin, s, [], some evidence⟩

/-- `classify_key`; `base` is the stored base's key where it was parsed before. -/
def classifyKey (key : Option String) (base : Option (Option String))
    (baseKey : Option (Option String)) : Option KeyVerdict :=
  match key with
  | none => some .noBinding
  | some key =>
    if key = sweeper.ownCommitment then some .own
    else
      match base.or baseKey with
      | none => none
      | some base => some (if base = some key then .base else .foreign key)

/-- `check_stored_state`: released or moved ends the visit; kept carries the
stored key where it was parsed. -/
inductive StoredState where
  | released
  | moved
  | kept (base : Option (Option String))

def StoredState.of : ReleaseWrite → StoredState
  | .stateMoved => .moved
  | _ => .released

def checkStoredState (reads : Reads) (s : SweepState) (stored : StateObject)
    (reportMismatch : Bool) : Option StoredState × SweepState × Option ReleaseEvidence :=
  if s.checkedStored = some (sweeper.commitmentHash stored.commitment) then
    (some (.kept none), s, none)
  else
    match reads.storedKey with
    | none => (none, s, none)
    | some key =>
      let checked := { s with checkedStored := some (sweeper.commitmentHash stored.commitment) }
      match key.filter (· != sweeper.ownCommitment) with
      | none => (some (.kept (some key)), checked, none)
      | some _ =>
        match reads.promotingDelta with
        | none => (none, s, none)
        | some (some _) =>
          match release s reads.releaseWrite with
          | (none, s) => (none, s, some .delta)
          | (some write, s) => (some (.of write), s, some .delta)
        | some none => (some (.kept (some key)), if reportMismatch then checked else s, none)

/-- `visit_diverged`, once the key in the published storage is classified. -/
def visitForeignKey (reads : Reads) (s : SweepState) (origin : ReleaseOrigin)
    (guardian : String) (blockNum : Nat) : Visited :=
  let (observation, s) := s.recordForeignObservation guardian blockNum
  let s := match origin with
    | .blockWatch observed => s.rememberStreakOrigin observed
    | _ => s
  let waits : VisitOutcome := match origin with
    | .blockWatch _ => .waiting
    | _ => .checked
  match observation with
  | .counted observations =>
    if sweeper.confirmations ≤ observations then
      releaseAndEnd s reads.releaseWrite origin .chainSweep
    else .done s waits
  | .notNewer _ => .done s waits

/-- The second detector: the account's published storage. -/
def visitStorage (reads : Reads) (s : SweepState) (stored : StateObject)
    (base : Option (Option String)) (origin : ReleaseOrigin) (historyUnavailable : Bool) :
    Visited :=
  match reads.binding with
  | none => .done s .deferred
  | some .concealed => .done s (if historyUnavailable then .deferred else .checked)
  | some (.visible onChainCommitment guardian nonce blockNum) =>
    if origin.observedBlockNum.any (blockNum < ·) then
      (Visited.done s .deferred).after (.behind guardian blockNum)
    else if onChainCommitment = stored.commitment then
      (Visited.done s.clearStreak .checked).after .atStored
    else
      match stored.nonce.map some |>.or reads.nonceOf with
      | none => (Visited.done s .failed).after (.unclassified guardian)
      | some storedNonce =>
        if storedNonce.any (nonce < ·) then
          (Visited.done s .checked).after (.behind guardian blockNum)
        else
          match classifyKey sweeper guardian base reads.baseKey with
          | none => (Visited.done s .failed).after (.unclassified guardian)
          | some (.foreign commitment) =>
            (visitForeignKey sweeper reads s origin commitment blockNum).after
              (.key (.foreign commitment) blockNum)
          | some verdict =>
            (Visited.done s.clearStreak .checked).after (.key verdict blockNum)

/-- `visit_diverged`. -/
def visitDiverged (reads : Reads) (s : SweepState) (stored : StateObject)
    (base : Option (Option String)) (origin : ReleaseOrigin) : Visited :=
  match reads.search with
  | none => .done s .failed
  | some (.found guardian) =>
    -- `release_on_switch_match`
    match classifyKey sweeper guardian base reads.baseKey with
    | none => (Visited.done s .failed).after (.unclassified guardian)
    | some (.foreign commitment) =>
      (releaseAndEnd s reads.releaseWrite origin .switchMatch).after
        (.executed (.foreign commitment) (some reads.releaseWrite))
    | some verdict => (Visited.done s.clearStreak .checked).after (.executed verdict none)
  | some .notFound => visitStorage sweeper reads s stored base origin false
  | some .historyUnavailable => visitStorage sweeper reads s stored base origin true

/-- `chain_at_stored_base`. -/
def chainAtStoredBase (reads : Reads) (s : SweepState) (storedCommitment : Commitment) : Visited :=
  let s := s.clearStreak
  let visited : Visited :=
    if s.checkedStored = some (sweeper.commitmentHash storedCommitment) then .done s .checked
    else
      match reads.stored with
      | none => .done s .failed
      | some stored =>
        if stored.commitment ≠ storedCommitment then .done s .checked
        else
          match checkStoredState sweeper reads s stored true with
          | (none, s, evidence) => ⟨.failed, s, [], evidence⟩
          | (some _, s, evidence) => ⟨.checked, s, [], evidence⟩
  visited.after .atStored

/-- The stored state's own key, then the detectors. -/
def visitMoved (reads : Reads) (s : SweepState) (stored : StateObject) (origin : ReleaseOrigin)
    (moved : VisitOutcome) : Visited :=
  match checkStoredState sweeper reads s stored false with
  | (none, s, evidence) => ⟨.failed, s, [], evidence⟩
  | (some .released, s, evidence) => ⟨.checked, s, [], evidence⟩
  | (some .moved, s, evidence) => ⟨moved, s, [], evidence⟩
  | (some (.kept base), s, _) => visitDiverged sweeper reads s stored base origin

/-- `visit`. -/
def visit (reads : Reads) (s : SweepState) (row : SweptRow) : Visited :=
  if row.isEvm ∨ row.released then .done s.forgetAccount .checked
  else if row.hasPendingCandidate then .done s .checked
  else
    match reads.storedCommitment with
    | none => .done s .failed
    | some none => .done s.forgetAccount .checked
    | some (some storedCommitment) =>
      match reads.verification with
      | some .match => chainAtStoredBase sweeper reads s storedCommitment
      | some .absent => .done s.forgetAccount .checked
      | none => .done s .deferred
      | some (.mismatch _) =>
        match reads.stored with
        | none => .done s .failed
        | some stored =>
          if stored.commitment ≠ storedCommitment then .done s .checked
          else visitMoved sweeper reads s stored .rotation .checked

/-- `visit_observed_row`. -/
def visitObservedRow (reads : Reads) (s : SweepState) (row : SweptRow) (onChain : Commitment)
    (observedBlockNum : Nat) : Visited :=
  if row.isEvm ∨ row.released then .done s.forgetAccount .checked
  else if row.hasPendingCandidate then .done s .waiting
  else
    match reads.storedCommitment with
    | none => .done s .failed
    | some none => .done s.forgetAccount .checked
    | some (some storedCommitment) =>
      if eqIgnoreAsciiCase storedCommitment onChain then
        let visited : Visited :=
          if s.checkedStored = some (sweeper.commitmentHash storedCommitment) then .done s .checked
          else
            match reads.stored with
            | none => .done s .failed
            | some stored =>
              if stored.commitment ≠ storedCommitment then .done s .checked
              else
                match checkStoredState sweeper reads s stored true with
                | (none, s, evidence) => ⟨.failed, s, [], evidence⟩
                | (some .moved, s, evidence) => ⟨.deferred, s, [], evidence⟩
                | (some _, s, evidence) => ⟨.checked, s, [], evidence⟩
        visited.after .reachedStored
      else if s.streak.isSome then .done s .waiting
      else
        match reads.stored with
        | none => .done s .failed
        | some stored =>
          if stored.commitment ≠ storedCommitment then .done s .deferred
          else visitMoved sweeper reads s stored (.blockWatch observedBlockNum) .deferred

/-- A visit of the account: the rotation's or a re-check's (`visit_account`), or
one for a block watch observation (`visit_observed`). -/
inductive VisitCall where
  | account
  | observed (onChain : Commitment) (observedBlockNum : Nat)
  deriving DecidableEq, Repr

def visitAccount (call : VisitCall) (reads : Reads) (s : SweepState) : Visited :=
  match reads.metadata with
  | none => .done s .failed
  | some none => .done s.forgetAccount .checked
  | some (some row) =>
    match call with
    | .account => visit sweeper reads s row
    | .observed onChain observedBlockNum =>
      visitObservedRow sweeper reads s row onChain observedBlockNum

/-! ## Streaks -/

/-- What says nothing about where the account is now, and a switch whose release
could not be written. -/
def Seen.ignored : Seen → Bool
  | .reachedStored | .unclassified _ | .behind .. => true
  | .executed (.foreign _) (some .failed) => true
  | _ => false

/-- What was seen, newest first, starts with `n` confirmations of one key at
rising blocks, the last at block `last`, and nothing against them. -/
inductive Confirmed (guardian : String) : Nat → Nat → List Seen → Prop
  | opened {block : Nat} {older : List Seen} :
      Confirmed guardian 1 block (.key (.foreign guardian) block :: older)
  | counted {n last block : Nat} {log : List Seen} (before : Confirmed guardian n last log)
      (later : last < block) :
      Confirmed guardian (n + 1) block (.key (.foreign guardian) block :: log)
  | notNewer {n last block : Nat} {log : List Seen} (before : Confirmed guardian n last log) :
      Confirmed guardian n last (.key (.foreign guardian) block :: log)
  | ignored {n last : Nat} {seen : Seen} {log : List Seen} (before : Confirmed guardian n last log)
      (ignored : seen.ignored = true) : Confirmed guardian n last (seen :: log)

/-- An open streak counts no more than was seen. -/
def SweepState.Holds (s : SweepState) (log : List Seen) : Prop :=
  ∀ streak, s.streak = some streak → ∃ n, streak.observations ≤ n ∧
    Confirmed streak.guardianCommitment n streak.lastBlock log

/-- A visit keeps its streak true to what was seen, and releases by a confirmed
one only. -/
structure Visited.Kept (confirmations : Nat) (log : List Seen) (v : Visited) : Prop where
  holds : v.sweep.Holds (v.seen ++ log)
  releases : v.evidence = some .chainSweep → ∃ guardian block n rest,
    v.seen ++ log = .key (.foreign guardian) block :: rest ∧ confirmations ≤ n ∧
      Confirmed guardian n block (v.seen ++ log)

variable {sweeper} {s : SweepState} {log : List Seen} {reads : Reads} {stored : StateObject}
  {c : Nat}

theorem SweepState.Holds.of_none (h : s.streak = none) : s.Holds log := by
  intro streak hs
  rw [h] at hs
  cases hs

theorem holds_clearStreak : s.clearStreak.Holds log := .of_none rfl

theorem holds_forgetAccount : s.forgetAccount.Holds log := .of_none rfl

theorem SweepState.Holds.congr (h : s.Holds log) {s' : SweepState} (heq : s'.streak = s.streak) :
    s'.Holds log := fun streak hs => h streak (heq ▸ hs)

theorem SweepState.Holds.ignored (h : s.Holds log) {seen : Seen} (hi : seen.ignored = true) :
    s.Holds (seen :: log) := by
  intro streak hs
  obtain ⟨n, hle, hconf⟩ := h streak hs
  exact ⟨n, hle, .ignored hconf hi⟩

/-- A recorded observation, and what it counts. -/
theorem SweepState.Holds.record (h : s.Holds log) (guardian : String) (block : Nat) :
    (s.recordForeignObservation guardian block).2.Holds (.key (.foreign guardian) block :: log) ∧
      ∀ m, (s.recordForeignObservation guardian block).1 = .counted m → ∃ n, m ≤ n ∧
        Confirmed guardian n block (.key (.foreign guardian) block :: log) := by
  have hopened : ∀ {s' : SweepState}, s'.streak = some ⟨guardian, 1, block⟩ →
      s'.Holds (.key (.foreign guardian) block :: log) := by
    intro s' hs' streak hs
    cases hs'.symm.trans hs
    exact ⟨1, Nat.le_refl 1, .opened⟩
  have hone : ∀ m, Observation.counted 1 = .counted m → ∃ n, m ≤ n ∧
      Confirmed guardian n block (.key (.foreign guardian) block :: log) := by
    intro m hm
    cases hm
    exact ⟨1, Nat.le_refl 1, .opened⟩
  unfold recordForeignObservation
  split
  · exact ⟨hopened rfl, hone⟩
  · next streak hstreak =>
    obtain ⟨n, hle, hconf⟩ := h streak hstreak
    split
    · next hsame =>
      rw [hsame] at hconf
      split
      · next hlater =>
        have hcount : Confirmed guardian (n + 1) block
            (.key (.foreign guardian) block :: log) := .counted hconf hlater
        -- the counter saturates, so it may stay below the number of observations
        have hmin : min (streak.observations + 1) (2 ^ 32 - 1) ≤ n + 1 :=
          Nat.le_trans (Nat.min_le_left _ _) (Nat.succ_le_succ hle)
        refine ⟨fun streak' hs => ?_, fun m hm => ?_⟩
        · cases hs
          exact ⟨n + 1, hmin, hcount⟩
        · cases hm
          exact ⟨n + 1, hmin, hcount⟩
      · refine ⟨fun streak' hs => ?_, nofun⟩
        cases hstreak.symm.trans hs
        subst hsame
        exact ⟨n, hle, .notNewer hconf⟩
    · exact ⟨hopened rfl, hone⟩

namespace Visited.Kept

theorem done (h : s.Holds log) (outcome : VisitOutcome) : (Visited.done s outcome).Kept c log :=
  ⟨h, nofun⟩

/-- What was seen first. -/
theorem after {v : Visited} {seen : Seen} (h : v.Kept c (seen :: log)) :
    (v.after seen).Kept c log := by
  have hlog : (v.after seen).seen ++ log = v.seen ++ seen :: log := by simp [Visited.after]
  exact ⟨hlog ▸ h.holds, hlog ▸ h.releases⟩

end Visited.Kept

theorem holds_release (h : s.Holds log) (write : ReleaseWrite) :
    (release s write).2.Holds log := by
  cases write with
  | failed => exact h
  | _ => exact holds_forgetAccount

/-- After a switch to another guardian only a failed release leaves the streak. -/
theorem holds_release_switch (h : s.Holds log) (guardian : String) (write : ReleaseWrite) :
    (release s write).2.Holds (.executed (.foreign guardian) (some write) :: log) := by
  cases write with
  | failed => exact h.ignored rfl
  | _ => exact holds_forgetAccount

theorem kept_releaseAndEnd {write : ReleaseWrite} (hheld : (release s write).2.Holds log)
    (origin : ReleaseOrigin) {evidence : ReleaseEvidence} (hevidence : evidence = .chainSweep →
      ∃ guardian block n rest, log = .key (.foreign guardian) block :: rest ∧ c ≤ n ∧
        Confirmed guardian n block log) :
    (releaseAndEnd s write origin evidence).Kept c log := by
  unfold releaseAndEnd
  split
  · next heq =>
    rw [heq] at hheld
    exact ⟨hheld, fun hev => hevidence (Option.some.inj hev)⟩
  · next heq =>
    rw [heq] at hheld
    exact ⟨hheld, fun hev => hevidence (Option.some.inj hev)⟩

theorem kept_visitForeignKey (h : s.Holds log) (origin : ReleaseOrigin) (guardian : String)
    (block : Nat) :
    (visitForeignKey sweeper reads s origin guardian block).Kept sweeper.confirmations
      (.key (.foreign guardian) block :: log) := by
  obtain ⟨hholds, hcount⟩ := h.record guardian block
  unfold visitForeignKey
  cases hobs : s.recordForeignObservation guardian block with
  | mk observation recorded =>
    rw [hobs] at hholds hcount
    dsimp only at hholds hcount ⊢
    have hstate : ∀ {s' : SweepState}, s'.streak = recorded.streak →
        s'.Holds (.key (.foreign guardian) block :: log) := fun heq => hholds.congr heq
    have horigin : (match origin with
        | .blockWatch observed => recorded.rememberStreakOrigin observed
        | _ => recorded).streak = recorded.streak := by cases origin <;> rfl
    cases observation with
    | notNewer _ => exact .done (hstate horigin) _
    | counted m =>
      dsimp only
      split
      · next hconfirmed =>
        refine kept_releaseAndEnd (holds_release (hstate horigin) _) _ fun _ => ?_
        obtain ⟨n, hle, hconf⟩ := hcount m rfl
        exact ⟨guardian, block, n, log, rfl, Nat.le_trans hconfirmed hle, hconf⟩
      · exact .done (hstate horigin) _

theorem kept_visitStorage (h : s.Holds log) (base : Option (Option String))
    (origin : ReleaseOrigin) (unavailable : Bool) :
    (visitStorage sweeper reads s stored base origin unavailable).Kept sweeper.confirmations
      log := by
  unfold visitStorage
  split
  · exact .done h _
  · exact .done h _
  · split
    · exact .after (.done (h.ignored rfl) _)
    split
    · exact .after (.done holds_clearStreak _)
    split
    · exact .after (.done (h.ignored rfl) _)
    split
    · exact .after (.done (h.ignored rfl) _)
    split
    · exact .after (.done (h.ignored rfl) _)
    · exact .after (kept_visitForeignKey h origin _ _)
    · exact .after (.done holds_clearStreak _)

theorem kept_visitDiverged (h : s.Holds log) (base : Option (Option String))
    (origin : ReleaseOrigin) :
    (visitDiverged sweeper reads s stored base origin).Kept sweeper.confirmations log := by
  unfold visitDiverged
  split
  · exact .done h _
  · split
    · exact .after (.done (h.ignored rfl) _)
    · exact .after (kept_releaseAndEnd (holds_release_switch h _ _) _ nofun)
    · exact .after (.done holds_clearStreak _)
  · exact kept_visitStorage h base origin false
  · exact kept_visitStorage h base origin true

/-- The check of the stored state leaves the streak or ends it, and never
releases by it. -/
theorem holds_checkStoredState (sweeper : Sweeper) (reads : Reads) (stored : StateObject)
    (h : s.Holds log) (report : Bool) :
    (checkStoredState sweeper reads s stored report).2.1.Holds log ∧
      (checkStoredState sweeper reads s stored report).2.2 ≠ some .chainSweep := by
  unfold checkStoredState
  split
  · exact ⟨h, nofun⟩
  split
  · exact ⟨h, nofun⟩
  dsimp only
  split
  · exact ⟨h.congr rfl, nofun⟩
  split
  · exact ⟨h, nofun⟩
  · have hheld := holds_release h reads.releaseWrite
    split
    · next heq => exact ⟨by rwa [heq] at hheld, nofun⟩
    · next heq => exact ⟨by rwa [heq] at hheld, nofun⟩
  · refine ⟨?_, nofun⟩
    split
    · exact h.congr rfl
    · exact h

theorem kept_visitMoved (h : s.Holds log) (origin : ReleaseOrigin) (moved : VisitOutcome) :
    (visitMoved sweeper reads s stored origin moved).Kept sweeper.confirmations log := by
  obtain ⟨hheld, hno⟩ := holds_checkStoredState sweeper reads stored h false
  unfold visitMoved
  split
  all_goals
    next heq =>
    rw [heq] at hheld hno
    first
      | exact ⟨hheld, fun hev => absurd hev hno⟩
      | exact kept_visitDiverged hheld _ origin

theorem kept_chainAtStoredBase (storedCommitment : Commitment) :
    (chainAtStoredBase sweeper reads s storedCommitment).Kept c log := by
  unfold chainAtStoredBase
  refine .after ?_
  have hclear : s.clearStreak.Holds (.atStored :: log) := holds_clearStreak
  split
  · exact .done hclear _
  split
  · exact .done hclear _
  · next stored _ =>
    split
    · exact .done hclear _
    · obtain ⟨hheld, hno⟩ := holds_checkStoredState sweeper reads stored hclear true
      split
      all_goals
        next heq =>
        rw [heq] at hheld hno
        exact ⟨hheld, fun hev => absurd hev hno⟩

theorem kept_visit (h : s.Holds log) (row : SweptRow) :
    (visit sweeper reads s row).Kept sweeper.confirmations log := by
  unfold visit
  split
  · exact .done holds_forgetAccount _
  split
  · exact .done h _
  split
  · exact .done h _
  · exact .done holds_forgetAccount _
  split
  · exact kept_chainAtStoredBase _
  · exact .done holds_forgetAccount _
  · exact .done h _
  split
  · exact .done h _
  split
  · exact .done h _
  · exact kept_visitMoved h _ _

theorem kept_visitObservedRow (h : s.Holds log) (row : SweptRow) (onChain : Commitment)
    (observed : Nat) :
    (visitObservedRow sweeper reads s row onChain observed).Kept sweeper.confirmations log := by
  unfold visitObservedRow
  split
  · exact .done holds_forgetAccount _
  split
  · exact .done h _
  split
  · exact .done h _
  · exact .done holds_forgetAccount _
  split
  · -- the store has caught up with what the block watch saw
    have hseen : s.Holds (.reachedStored :: log) := h.ignored rfl
    refine .after ?_
    split
    · exact .done hseen _
    split
    · exact .done hseen _
    · next stored _ =>
      split
      · exact .done hseen _
      · obtain ⟨hheld, hno⟩ := holds_checkStoredState sweeper reads stored hseen true
        split
        all_goals
          next heq =>
          rw [heq] at hheld hno
          exact ⟨hheld, fun hev => absurd hev hno⟩
  split
  · exact .done h _
  split
  · exact .done h _
  split
  · exact .done h _
  · exact kept_visitMoved h _ _

theorem kept_visitAccount (h : s.Holds log) (call : VisitCall) (reads : Reads) :
    (visitAccount sweeper call reads s).Kept sweeper.confirmations log := by
  unfold visitAccount
  split
  · exact .done h _
  · exact .done holds_forgetAccount _
  · cases call with
    | account => exact kept_visit h _
    | observed onChain block => exact kept_visitObservedRow h _ onChain block

/-! ## Runs -/

/-- What the visits of an account saw since the sweep started, newest first, and
the state they leave. -/
def visits (sweeper : Sweeper) (calls : List (VisitCall × Reads)) : SweepState × List Seen :=
  calls.foldl (fun (s, log) (call, reads) =>
    let visited := visitAccount sweeper call reads s
    (visited.sweep, visited.seen ++ log)) (.new, [])

theorem holds_visits (sweeper : Sweeper) (calls : List (VisitCall × Reads)) :
    (visits sweeper calls).1.Holds (visits sweeper calls).2 := by
  have hrun : ∀ (calls : List (VisitCall × Reads)) (run : SweepState × List Seen),
      run.1.Holds run.2 →
      (calls.foldl (fun (s, log) (call, reads) =>
        let visited := visitAccount sweeper call reads s
        (visited.sweep, visited.seen ++ log)) run).1.Holds
      (calls.foldl (fun (s, log) (call, reads) =>
        let visited := visitAccount sweeper call reads s
        (visited.sweep, visited.seen ++ log)) run).2 := by
    intro calls
    induction calls with
    | nil => exact fun _ h => h
    | cons head calls ih => exact fun run h => ih _ (kept_visitAccount h head.1 head.2).holds
  exact hrun calls (.new, []) (.of_none rfl)

/-- The confirmations, newest first, among what was seen since the first of
them. -/
theorem Confirmed.blocks {guardian : String} {n last : Nat} (h : Confirmed guardian n last log) :
    ∃ (blocks : List Nat) (recent older : List Seen), log = recent ++ older ∧ blocks.length = n ∧
      blocks.head? = some last ∧ blocks.Pairwise (· > ·) ∧
      (blocks.map fun block => Seen.key (.foreign guardian) block).Sublist recent ∧
      ∀ seen ∈ recent, (∃ block, seen = .key (.foreign guardian) block) ∨ seen.ignored = true := by
  induction h with
  | opened =>
    exact ⟨[_], [_], _, rfl, rfl, rfl, List.pairwise_singleton _ _, List.Sublist.refl _,
      fun seen hseen => .inl ⟨_, List.mem_singleton.mp hseen⟩⟩
  | @counted n last block log _ later ih =>
    obtain ⟨blocks, recent, older, rfl, rfl, hhead, hpair, hsub, hall⟩ := ih
    refine ⟨block :: blocks, _ :: recent, older, rfl, rfl, rfl, ?_, hsub.cons_cons _, ?_⟩
    · -- every earlier block is at most the last one
      refine List.pairwise_cons.mpr ⟨fun earlier hmem => ?_, hpair⟩
      cases blocks with
      | nil => cases hmem
      | cons newest blocks =>
        cases hhead
        rcases List.mem_cons.mp hmem with rfl | hmem
        · exact later
        · exact Nat.lt_trans ((List.pairwise_cons.mp hpair).1 earlier hmem) later
    · intro seen hseen
      rcases List.mem_cons.mp hseen with rfl | hseen
      · exact .inl ⟨block, rfl⟩
      · exact hall seen hseen
  | @notNewer n last block log _ ih =>
    obtain ⟨blocks, recent, older, rfl, hlen, hhead, hpair, hsub, hall⟩ := ih
    refine ⟨blocks, _ :: recent, older, rfl, hlen, hhead, hpair, hsub.cons _, ?_⟩
    intro seen hseen
    rcases List.mem_cons.mp hseen with rfl | hseen
    · exact .inl ⟨block, rfl⟩
    · exact hall seen hseen
  | @ignored n last seen log _ hignored ih =>
    obtain ⟨blocks, recent, older, rfl, hlen, hhead, hpair, hsub, hall⟩ := ih
    refine ⟨blocks, _ :: recent, older, rfl, hlen, hhead, hpair, hsub.cons _, ?_⟩
    intro seen' hseen
    rcases List.mem_cons.mp hseen with rfl | hseen
    · exact .inr hignored
    · exact hall seen' hseen

/-- A release by the streak: the visit itself saw the key, and so did enough
visits before it, at rising blocks. Since the first of these, every visit that
read where the account is now saw that key, and a switch to another guardian was
seen only where its release could not be written. -/
theorem streak_release_is_confirmed (sweeper : Sweeper) (calls : List (VisitCall × Reads))
    (call : VisitCall) (reads : Reads)
    (h : (visitAccount sweeper call reads (visits sweeper calls).1).evidence =
      some .chainSweep) :
    ∃ (guardian : String) (block : Nat) (blocks : List Nat) (recent older : List Seen),
      (visits sweeper (calls ++ [(call, reads)])).2 = recent ++ older ∧
      recent.head? = some (.key (.foreign guardian) block) ∧ blocks.head? = some block ∧
      sweeper.confirmations ≤ blocks.length ∧ blocks.Pairwise (· > ·) ∧
      (blocks.map fun block => Seen.key (.foreign guardian) block).Sublist recent ∧
      ∀ seen ∈ recent, (∃ block, seen = .key (.foreign guardian) block) ∨ seen.ignored = true := by
  have hlog : (visits sweeper (calls ++ [(call, reads)])).2 =
      (visitAccount sweeper call reads (visits sweeper calls).1).seen ++
        (visits sweeper calls).2 := by
    simp only [visits, List.foldl_append, List.foldl_cons, List.foldl_nil]
  obtain ⟨guardian, block, n, rest, hseen, hle, hconf⟩ :=
    (kept_visitAccount (holds_visits sweeper calls) call reads).releases h
  obtain ⟨blocks, recent, older, heq, hlen, hhead, hpair, hsub, hall⟩ := hconf.blocks
  rw [heq] at hseen
  refine ⟨guardian, block, blocks, recent, older, hlog.trans heq, ?_, hhead, by omega, hpair,
    hsub, hall⟩
  cases recent with
  | nil =>
    rw [List.sublist_nil, List.map_eq_nil_iff] at hsub
    rw [hsub] at hhead
    cases hhead
  | cons first recent =>
    rw [List.cons_append] at hseen
    rw [List.head?_cons, (List.cons.inj hseen).1]

namespace Demo

/-- Two confirmations; this server's key is `"own"`. -/
def twoConfirmations : Sweeper := ⟨2, "own", fun _ => 0⟩

/-- The stored state has nonce 5 and this server's key; the chain is elsewhere,
its storage at `nonce` shows `key` at `block`. -/
def storage (key : String) (nonce block : Nat) : Reads where
  metadata := some (some ⟨false, false, false⟩)
  storedCommitment := some (some "s")
  verification := some (.mismatch "c")
  stored := some ⟨"\"state\"", "s", some 5⟩
  storedKey := some (some "own")
  baseKey := some (some "own")
  promotingDelta := some none
  search := some .notFound
  binding := some (.visible "c" (some key) nonce block)
  nonceOf := some none
  releaseWrite := .released

end Demo

/-- The same key at blocks 100 and 101. -/
theorem streak_release_is_confirmed_twice :
    (visits Demo.twoConfirmations [(.account, Demo.storage "other" 6 100)]).2 =
        [.key (.foreign "other") 100] ∧
      ∃ (guardian : String) (block : Nat) (blocks : List Nat) (recent older : List Seen),
      (visits Demo.twoConfirmations [(.account, Demo.storage "other" 6 100),
        (.account, Demo.storage "other" 6 101)]).2 = recent ++ older ∧
      recent.head? = some (.key (.foreign guardian) block) ∧ blocks.head? = some block ∧
      Demo.twoConfirmations.confirmations ≤ blocks.length ∧ blocks.Pairwise (· > ·) ∧
      (blocks.map fun block => Seen.key (.foreign guardian) block).Sublist recent ∧
      ∀ seen ∈ recent, (∃ block, seen = .key (.foreign guardian) block) ∨ seen.ignored = true :=
  ⟨by decide, streak_release_is_confirmed Demo.twoConfirmations [(.account, Demo.storage "other" 6 100)]
    .account (Demo.storage "other" 6 101) (by decide)⟩

/-- What shows this server's key, another key or the stored state on chain,
however old the read. -/
def Seen.against (guardian : String) : Seen → Bool
  | .atStored | .reachedStored => true
  | .key verdict _ | .executed verdict _ => verdict != .foreign guardian && verdict != .noBinding
  | .unclassified shown | .behind shown _ => shown.any (· != guardian)

/-- A storage read from before the stored state, which shows this server's key,
between the two confirmations. -/
theorem older_read_between_confirmations :
    ¬∀ (sweeper : Sweeper) (calls : List (VisitCall × Reads)) (call : VisitCall) (reads : Reads),
      (visitAccount sweeper call reads (visits sweeper calls).1).evidence = some .chainSweep →
      ∃ (guardian : String) (blocks : List Nat) (recent older : List Seen),
        (visits sweeper (calls ++ [(call, reads)])).2 = recent ++ older ∧
        sweeper.confirmations ≤ blocks.length ∧ blocks.Pairwise (· > ·) ∧
        (blocks.map fun block => Seen.key (.foreign guardian) block).Sublist recent ∧
        ∀ seen ∈ recent, seen.against guardian = false := by
  intro hall
  obtain ⟨guardian, blocks, recent, older, hlog, hlen, _, hsub, hnone⟩ :=
    hall Demo.twoConfirmations
      [(.account, Demo.storage "other" 6 100), (.account, Demo.storage "own" 4 90)]
      .account (Demo.storage "other" 6 101) (by decide)
  have hseen : (visits Demo.twoConfirmations ([(.account, Demo.storage "other" 6 100),
      (.account, Demo.storage "own" 4 90)] ++ [(.account, Demo.storage "other" 6 101)])).2 =
      [.key (.foreign "other") 101, .behind (some "own") 90, .key (.foreign "other") 100] := by
    decide
  rw [hseen] at hlog
  have hlong : 2 ≤ recent.length := Nat.le_trans hlen (by simpa using hsub.length_le)
  match recent, hlong with
  | first :: second :: recent, _ =>
    cases (List.cons.inj hlog).1
    cases (List.cons.inj (List.cons.inj hlog).2).1
    have hfirst := hnone _ List.mem_cons_self
    have hsecond := hnone _ (List.mem_cons_of_mem _ List.mem_cons_self)
    simp only [Seen.against] at hfirst hsecond
    have hown : "own" = guardian := by simpa using hsecond
    subst hown
    exact absurd hfirst (by decide)

end Guardian.ReleaseSweep.Visits
