import Guardian.BlockWatch.Observations
import Guardian.ReleaseSweep.Rotation

/- How the release sweep worker serves the observations of block watch (`ObservationQueue`
   and the turns of `hold_lease`, `jobs/release_sweep/worker.rs`). The loop takes turns
   between re-checks, observations and the rotation; an observations' turn visits the
   observation due longest, and then deletes it, or puts it off to a later time.

   Nothing that is recorded or put off after an observation became due comes before it,
   so the observations ahead of it only become fewer: one of them is settled in each
   observations' turn that does not fail, and such a turn comes within three. Hence the
   bound of `due_observation_visited`, for a loop that runs beside a consumer that
   records more and beside other holders that settle some. -/
namespace Guardian.ObservationQueue

open BlockWatch
open MetadataStores (Instant)
open ReleaseSweep (VisitOutcome retryBackoff maxRetryBackoff Turn pickTurn)

/-! ## Settling a visit -/

/-- Durations in milliseconds. -/
structure Config where
  recheck : Nat
  maxAttempts : Nat
  deriving DecidableEq, Repr

/-- `LONG_WAIT_BLOCKS`. -/
def longWaitBlocks : Nat := 28800

/-- `due_in`: a wait too long for the clock is an hour. -/
def dueIn (now : Instant) (wait : Nat) : Instant :=
  now + (if wait ≤ i64Max then wait else maxRetryBackoff) * 1000000

/-- What settling an observation comes to. -/
inductive Settlement where
  | delete
  | postpone (wait : Nat)
  | defer (wait : Nat)
  /-- Out of attempts: it goes once a walk is recorded, else it is put off. -/
  | drop (wait : Nat)
  deriving DecidableEq, Repr

/-- `settle`. `lastBlock` is the position of the feed on this replica. -/
def settlement (cfg : Config) (lastBlock : Option Nat) (observation : Observation) :
    VisitOutcome → Settlement
  | .checked => .delete
  | .waiting =>
    let waited := lastBlock.elim 0 (· - observation.blockNum)
    .postpone (if longWaitBlocks ≤ waited then maxRetryBackoff else cfg.recheck)
  | .deferred | .failed =>
    let wait := retryBackoff cfg.recheck observation.attempts
    if cfg.maxAttempts ≤ min (observation.attempts + 1) u32Max then .drop wait else .defer wait

/-- The write a settlement makes at `now`; `walk` is how recording the walk ended.
`none` when the store refuses. -/
def Settlement.apply {store : ObservationStore} (accountId : String) (blockNum : Nat)
    (now : Instant) (walk : Option FencedWrite) (rows : store.State) :
    Settlement → Option store.State
  | .delete => some (store.delete accountId blockNum rows)
  | .postpone wait => some (store.postpone accountId blockNum (dueIn now wait) rows)
  | .defer wait => store.defer accountId blockNum (dueIn now wait) rows
  | .drop wait =>
    if walk = some .written then some (store.delete accountId blockNum rows)
    else some (store.postpone accountId blockNum (dueIn now wait) rows)

/-! ## The loop -/

/-- `OBSERVATION_STORE_RETRY`, in nanoseconds. -/
def observationStoreRetry : Nat := 30 * 1000000000

/-- What happens beside the loop: the feed records observations, and another holder
settles one. -/
inductive Other where
  | record (observations : List NewObservation) (now : Instant)
  | settle (accountId : String) (blockNum : Nat) (settlement : Settlement) (now : Instant)
      (walk : Option FencedWrite)
  deriving DecidableEq, Repr

/-- What the environment decides of one turn. -/
structure Choices where
  recheckDue : Bool
  rotationDue : Bool
  /-- The clock when the due time is read; `none` when the read fails. -/
  dueReadAt : Option Instant
  /-- How long the loop then slept, in nanoseconds. -/
  slept : Nat
  /-- The clock when the next observation is read; `none` when the read fails. -/
  readAt : Option Instant
  outcome : VisitOutcome
  lastBlock : Option Nat
  walk : Option FencedWrite
  settledAt : Instant
  /-- Whether the write that settles the visit goes through. -/
  settles : Bool
  /-- What happens during the visit. -/
  meanwhile : List Other
  deriving DecidableEq, Repr

inductive Event where
  | turn (choices : Choices)
  | other (act : Other)
  deriving DecidableEq, Repr

/-- The loop and the store. The last three fields are read by no code: the turns it
took, the calls of its that failed, and the observations visited, or settled by
another holder. -/
structure Loop (store : ObservationStore) where
  rows : store.State
  lastTurn : Turn
  turns : Nat
  failures : Nat
  visited : List (String × Nat)

variable {store : ObservationStore}

/-- Until when the loop may sleep for the observations (`next_due`). -/
def nextDueIn (readAt : Option Instant) (rows : store.State) : Option Nat :=
  match readAt with
  | none => some observationStoreRetry
  | some now => (store.nextDueAt rows).map (fun at_ => (at_ - now).toNat)

/-- Which turns are due. -/
def isDue (c : Choices) (rows : store.State) : Turn → Bool
  | .recheck => c.recheckDue
  | .observation => (nextDueIn c.dueReadAt rows).any (fun wait => decide (wait ≤ c.slept))
  | .rotation => c.rotationDue

namespace Loop

def other (act : Other) (l : Loop store) : Loop store :=
  match act with
  | .record new now =>
    { l with rows := new.foldl (fun rows o => store.record o now rows) l.rows }
  | .settle accountId blockNum settlement now walk =>
    match settlement.apply accountId blockNum now walk l.rows with
    | some rows => { l with rows, visited := (accountId, blockNum) :: l.visited }
    | none => l

def fail (l : Loop store) : Loop store := { l with failures := l.failures + 1 }

/-- The write at the end of a visit. -/
def settle (cfg : Config) (c : Choices) (observation : Observation) (l : Loop store) :
    Loop store :=
  let settlement := settlement cfg c.lastBlock observation c.outcome
  if c.settles then
    match settlement.apply observation.accountId observation.blockNum c.settledAt c.walk l.rows with
    | some rows => { l with rows }
    | none => l.fail
  else l.fail

/-- `visit_next`. -/
def visitNext (cfg : Config) (c : Choices) (l : Loop store) : Loop store :=
  match c.readAt with
  | none => l.fail
  | some now =>
    match (store.nextDue now l.rows).map (·.observation) with
    | none => l
    | some observation =>
      settle cfg c observation (c.meanwhile.foldl (fun l act => l.other act)
        { l with visited := (observation.accountId, observation.blockNum) :: l.visited })

/-- The turn that was picked. -/
def take (cfg : Config) (c : Choices) (l : Loop store) : Option Turn → Loop store
  | none => l
  | some .observation =>
    visitNext cfg c { l with lastTurn := .observation, turns := l.turns + 1 }
  | some turn => { l with lastTurn := turn, turns := l.turns + 1 }

/-- One turn of `hold_lease`. -/
def turn (cfg : Config) (c : Choices) (l : Loop store) : Loop store :=
  take cfg c (if c.dueReadAt.isNone then l.fail else l) (pickTurn l.lastTurn (isDue c l.rows))

def step (cfg : Config) (l : Loop store) : Event → Loop store
  | .turn c => l.turn cfg c
  | .other act => l.other act

def run (cfg : Config) (events : List Event) (l : Loop store) : Loop store :=
  events.foldl (step cfg) l

end Loop

/-! ## Nothing gets ahead -/

/-- The clock stands past the observation's due time, also as the store keeps it. -/
def Past (store : ObservationStore) (o : StoredObservation) (now : Instant) : Prop :=
  o.nextAttemptAt < now ∧ o.nextAttemptAt < store.kept now

instance (o : StoredObservation) (now : Instant) : Decidable (Past store o now) :=
  inferInstanceAs (Decidable (_ ∧ _))

def Other.clock : Other → Instant
  | .record _ now => now
  | .settle _ _ _ now _ => now

/-- The clock readings of a turn. -/
def Choices.clocks (c : Choices) : List Instant :=
  c.settledAt :: (c.dueReadAt.toList ++ c.readAt.toList ++ c.meanwhile.map Other.clock)

def Event.clocks : Event → List Instant
  | .turn c => c.clocks
  | .other act => [act.clock]

/-- The observations served before `o`. -/
def ahead (o : StoredObservation) (rows : store.State) : List StoredObservation :=
  Agenda.ahead (·.nextAttemptAt) (·.visitKey) o (store.rows rows)

section Steps
variable {o : StoredObservation} {now : Instant}

theorem not_ahead_of_lt {r : StoredObservation} {rows : store.State}
    (h : o.nextAttemptAt < r.nextAttemptAt) : r ∉ ahead o rows := fun hmem =>
  not_lt.mpr (Agenda.due_le_of_rank_le (Agenda.mem_ahead.mp hmem).2.le) h

theorem Past.dueIn (h : Past store o now) (wait : Nat) :
    o.nextAttemptAt < store.kept (dueIn now wait) := by
  refine lt_of_lt_of_le h.2 (store.kept_mono (le_add_of_nonneg_right ?_))
  exact Int.mul_nonneg (by split <;> exact Int.natCast_nonneg _) (by decide)

/-- What a settlement leaves ahead was there, and is not what it settled; and it
leaves the others alone. -/
theorem apply_spec {settlement : Settlement} {accountId : String} {blockNum : Nat}
    {walk : Option FencedWrite} {rows rows' : store.State} (hpast : Past store o now)
    (h : settlement.apply accountId blockNum now walk rows = some rows') :
    (∀ r ∈ ahead o rows', r ∈ store.rows rows ∧ r.isOf accountId blockNum = false) ∧
      ∀ r ∈ store.rows rows, r.isOf accountId blockNum = false → r ∈ store.rows rows' := by
  have hdelete : ∀ {rows'}, store.delete accountId blockNum rows = rows' →
      (∀ r ∈ ahead o rows', r ∈ store.rows rows ∧ r.isOf accountId blockNum = false) ∧
        ∀ r ∈ store.rows rows, r.isOf accountId blockNum = false → r ∈ store.rows rows' := by
    rintro _ rfl
    exact ⟨fun r hr => store.mem_delete.mp (Agenda.mem_ahead.mp hr).1,
      fun r hr hof => store.mem_delete.mpr ⟨hr, hof⟩⟩
  -- a row that was put off is due later than `o`
  have hput : ∀ {rows'} {f : StoredObservation → StoredObservation},
      (∀ r, o.nextAttemptAt < (f r).nextAttemptAt) →
      (∀ {b}, b ∈ store.rows rows' ↔ (∃ r ∈ store.rows rows,
        r.isOf accountId blockNum = true ∧ b = f r) ∨
          (b ∈ store.rows rows ∧ b.isOf accountId blockNum = false)) →
      (∀ r ∈ ahead o rows', r ∈ store.rows rows ∧ r.isOf accountId blockNum = false) ∧
        ∀ r ∈ store.rows rows, r.isOf accountId blockNum = false → r ∈ store.rows rows' := by
    intro rows' f hlater hmem
    refine ⟨fun b hb => ?_, fun r hr hof => hmem.mpr (.inr ⟨hr, hof⟩)⟩
    obtain ⟨r, _, _, rfl⟩ | hold := hmem.mp (Agenda.mem_ahead.mp hb).1
    · exact absurd hb (not_ahead_of_lt (hlater r))
    · exact hold
  cases settlement with
  | delete =>
    cases h
    exact hdelete rfl
  | postpone wait =>
    cases h
    exact hput (fun _ => hpast.dueIn wait) store.mem_postpone
  | defer wait => exact hput (fun _ => hpast.dueIn wait) (store.mem_defer h)
  | drop wait =>
    simp only [Settlement.apply] at h
    split at h
    · cases h
      exact hdelete rfl
    · cases h
      exact hput (fun _ => hpast.dueIn wait) store.mem_postpone

/-- A step that takes no turn: nothing gets ahead of `o`, and `o` stays unless it is
settled. -/
structure Calm (o : StoredObservation) (l l' : Loop store) : Prop where
  ahead : ∀ r ∈ ahead o l'.rows, r ∈ store.rows l.rows
  kept : o ∈ store.rows l.rows → o ∈ store.rows l'.rows ∨ (o.accountId, o.blockNum) ∈ l'.visited
  visited : l.visited ⊆ l'.visited
  turns : l'.turns = l.turns
  failures : l'.failures = l.failures
  lastTurn : l'.lastTurn = l.lastTurn

theorem Calm.refl (l : Loop store) : Calm o l l :=
  ⟨fun _ h => (Agenda.mem_ahead.mp h).1, .inl, List.Subset.refl _, rfl, rfl, rfl⟩

theorem Calm.trans {a b c : Loop store} (h : Calm o a b) (h' : Calm o b c) : Calm o a c where
  ahead := fun r hr =>
    h.ahead r (Agenda.mem_ahead.mpr ⟨h'.ahead r hr, (Agenda.mem_ahead.mp hr).2⟩)
  kept := fun ho => (h.kept ho).elim h'.kept fun hv => .inr (h'.visited hv)
  visited := List.Subset.trans h.visited h'.visited
  turns := h'.turns.trans h.turns
  failures := h'.failures.trans h.failures
  lastTurn := h'.lastTurn.trans h.lastTurn

theorem calm_record (hpast : Past store o now) (new : List NewObservation) :
    ∀ l : Loop store, Calm o l (l.other (.record new now)) := by
  induction new with
  | nil => exact .refl
  | cons n new ih =>
    intro l
    refine Calm.trans (b := { l with rows := store.record n now l.rows })
      ⟨fun r hr => ?_, fun ho => .inl (store.mem_record.mpr (.inl ho)),
        List.Subset.refl _, rfl, rfl, rfl⟩ (ih _)
    obtain hold | ⟨rfl, -⟩ := store.mem_record.mp (Agenda.mem_ahead.mp hr).1
    · exact hold
    · exact absurd hr (not_ahead_of_lt hpast.2)

theorem calm_other {act : Other} (hpast : Past store o act.clock) (l : Loop store) :
    Calm o l (l.other act) := by
  cases act with
  | record new t => exact calm_record hpast new l
  | settle accountId blockNum settlement t walk =>
    simp only [Loop.other]
    split
    · next rows' happly =>
      obtain ⟨hahead, hrest⟩ := apply_spec hpast happly
      refine ⟨fun r hr => (hahead r hr).1, fun ho => ?_, List.subset_cons_self _ _, rfl, rfl, rfl⟩
      cases hof : o.isOf accountId blockNum with
      | false => exact .inl (hrest o ho hof)
      | true =>
        obtain ⟨rfl, rfl⟩ := StoredObservation.isOf_iff.mp hof
        exact .inr List.mem_cons_self
    · exact .refl l

theorem calm_others {acts : List Other} (hpast : ∀ act ∈ acts, Past store o act.clock) :
    ∀ l : Loop store, Calm o l (acts.foldl (fun l act => l.other act) l) := by
  induction acts with
  | nil => exact .refl
  | cons act acts ih =>
    intro l
    exact (calm_other (hpast act List.mem_cons_self) l).trans
      (ih (fun a ha => hpast a (List.mem_cons_of_mem act ha)) _)

end Steps

/-! ## The bound -/

/-- Turns until the observations' turn, at most. -/
def untilObservation : Turn → Nat
  | .recheck => 1
  | .rotation => 2
  | .observation => 3

/-- `o` was visited, or it still waits, within `n` turns and three for each failure. -/
def Within (o : StoredObservation) (n : Nat) (l : Loop store) : Prop :=
  (o.accountId, o.blockNum) ∈ l.visited ∨ (o ∈ store.rows l.rows ∧
    l.turns + 3 * (ahead o l.rows).length + untilObservation l.lastTurn ≤ n + 3 * l.failures)

section Bound
variable {o : StoredObservation} {n : Nat} {l l' : Loop store}

theorem Within.calm (h : Within o n l) (hc : Calm o l l') : Within o n l' := by
  obtain hvisited | ⟨hmem, hle⟩ := h
  · exact .inl (hc.visited hvisited)
  · obtain hstays | hsettled := hc.kept hmem
    · refine .inr ⟨hstays, ?_⟩
      have hlen : (ahead o l'.rows).length ≤ (ahead o l.rows).length :=
        Agenda.ahead_length_le (store.nodup _) hc.ahead
      rw [hc.turns, hc.failures, hc.lastTurn]
      omega
    · exact .inl hsettled

theorem Within.mono {m : Nat} (h : Within o n l) (hle : n ≤ m) : Within o m l :=
  h.imp_right fun ⟨ho, hbound⟩ => ⟨ho, by omega⟩

theorem untilObservation_pos (turn : Turn) : 1 ≤ untilObservation turn := by
  cases turn <;> decide

theorem untilObservation_le (turn : Turn) : untilObservation turn ≤ 3 := by
  cases turn <;> decide

/-- A failure pays for the turn it spoils. -/
theorem Within.fail (h : Within o (n + 3) l) : Within o n l.fail := by
  obtain hvisited | ⟨hmem, hle⟩ := h
  · exact .inl hvisited
  · refine .inr ⟨hmem, ?_⟩
    show l.turns + 3 * (ahead o l.rows).length + untilObservation l.lastTurn ≤
      n + 3 * (l.failures + 1)
    omega

/-- A visit that settles an observation ahead of `o` leaves one less. -/
theorem within_settle {cfg : Config} {c : Choices} {p : StoredObservation} {l₁ : Loop store}
    (hpast : Past store o c.settledAt) (h : Within o (n + 3) l₁) (hc : Calm o l₁ l)
    (hp : p ∈ ahead o l₁.rows) : Within o n (l.settle cfg c p.observation) := by
  have hl : Within o (n + 3) l := h.calm hc
  simp only [Loop.settle]
  split
  · split
    · next rows' happly =>
      obtain ⟨hahead, hrest⟩ := apply_spec hpast happly
      obtain hvisited | ⟨hmem, hle⟩ := h
      · exact .inl (hc.visited hvisited)
      obtain hvisited | ⟨ho, -⟩ := hl
      · exact .inl hvisited
      have hcalm : ∀ r ∈ ahead o rows', r ∈ store.rows l₁.rows := fun r hr =>
        hc.ahead r (Agenda.mem_ahead.mpr ⟨(hahead r hr).1, (Agenda.mem_ahead.mp hr).2⟩)
      have hself : p.isOf p.accountId p.blockNum = true :=
        StoredObservation.isOf_iff.mpr ⟨rfl, rfl⟩
      have hgone : p ∉ ahead o rows' := fun hp' => by
        have hof := (hahead p hp').2
        exact absurd (hself.symm.trans hof) (by decide)
      have hlen : (ahead o rows').length < (ahead o l₁.rows).length :=
        Agenda.ahead_length_lt (store.nodup _) hcalm hp hgone
      -- `o` is not what was settled: it comes after `p`
      have hof : o.isOf p.accountId p.blockNum = false := by
        cases hof : o.isOf p.accountId p.blockNum with
        | false => rfl
        | true =>
          have hkey : p.visitKey = o.visitKey := StoredObservation.visitKey_eq_iff.mpr hof
          have hsame := store.distinct _ p (Agenda.mem_ahead.mp hp).1 o hmem hkey
          subst hsame
          exact absurd (Agenda.mem_ahead.mp hp).2 (lt_irrefl _)
      refine .inr ⟨hrest o ho hof, ?_⟩
      show l.turns + 3 * (ahead o rows').length + untilObservation l.lastTurn ≤
        n + 3 * l.failures
      rw [hc.turns, hc.failures, hc.lastTurn]
      omega
    · exact hl.fail
  · exact hl.fail

/-- While an observation is due, the observations' turn comes closer. -/
theorem pickTurn_closer (last : Turn) {due : Turn → Bool} (h : due .observation = true) :
    pickTurn last due = some .observation ∨
      ∃ turn, turn ≠ .observation ∧ pickTurn last due = some turn ∧
        untilObservation turn < untilObservation last := by
  cases last with
  | recheck => exact .inl (by simp [pickTurn, Turn.after, h])
  | rotation =>
    cases hr : due .recheck with
    | true => exact .inr ⟨.recheck, by decide, by simp [pickTurn, Turn.after, hr], by decide⟩
    | false => exact .inl (by simp [pickTurn, Turn.after, h, hr])
  | observation =>
    cases hr : due .rotation with
    | true => exact .inr ⟨.rotation, by decide, by simp [pickTurn, Turn.after, hr], by decide⟩
    | false =>
      cases hc : due .recheck with
      | true => exact .inr ⟨.recheck, by decide, by simp [pickTurn, Turn.after, hr, hc], by decide⟩
      | false => exact .inl (by simp [pickTurn, Turn.after, h, hr, hc])

/-- The loop sees that an observation is due. -/
theorem nextDueIn_eq_zero {now : Instant} {rows : store.State} (ho : o ∈ store.rows rows)
    (hpast : o.nextAttemptAt < now) : nextDueIn (some now) rows = some 0 := by
  have hmem : o.nextAttemptAt ∈ (store.rows rows).map (·.nextAttemptAt) := List.mem_map_of_mem ho
  obtain ⟨at_, hat⟩ := Option.isSome_iff_exists.mp (List.isSome_min?_of_mem hmem)
  have hle : at_ ≤ o.nextAttemptAt := (List.min?_eq_some_iff.mp hat).2 _ hmem
  have hzero : (at_ - now).toNat = 0 := Int.toNat_of_nonpos (by
    have := lt_of_le_of_lt hle hpast
    exact Int.sub_nonpos_of_le this.le)
  simp only [nextDueIn, store.nextDueAt_eq, hat, Option.map_some, hzero]

theorem visited_settle (cfg : Config) (c : Choices) (observation : Observation) (l : Loop store) :
    (l.settle cfg c observation).visited = l.visited := by
  simp only [Loop.settle]
  split
  · split <;> rfl
  · rfl

/-- The observations' turn. -/
theorem within_visitNext {cfg : Config} {c : Choices} (hpast : ∀ t ∈ c.clocks, Past store o t)
    (h : Within o (n + 3) l) : Within o n (l.visitNext cfg c) := by
  have hsettled : Past store o c.settledAt := hpast _ List.mem_cons_self
  have hothers : ∀ act ∈ c.meanwhile, Past store o act.clock := fun act ha =>
    hpast _ (List.mem_cons_of_mem _ (List.mem_append_right _ (List.mem_map_of_mem ha)))
  unfold Loop.visitNext
  split
  · exact h.fail
  · next now hread =>
    have hnow : Past store o now := hpast _ (List.mem_cons_of_mem _ (by simp [hread]))
    cases hdue : store.nextDue now l.rows with
    | none =>
      -- nothing is due: `o` is gone already
      obtain hvisited | ⟨ho, -⟩ := h
      · exact .inl hvisited
      · obtain ⟨p, hp⟩ := Agenda.exists_first (store.distinct _) ho hnow.2.le
        rw [store.nextDue_iff.mpr hp] at hdue
        cases hdue
    | some p =>
      have hfirst := store.nextDue_iff.mp hdue
      have hcalm := calm_others hothers
        { l with visited := (p.accountId, p.blockNum) :: l.visited }
      show Within o n (Loop.settle cfg c p.observation _)
      obtain hvisited | ⟨ho, hle⟩ := h
      · refine .inl ?_
        rw [visited_settle]
        exact hcalm.visited (List.mem_cons_of_mem _ hvisited)
      · obtain hahead | rfl := hfirst.ahead_or_eq (store.distinct _) ho hnow.2.le
        · have hbefore : Within o (n + 3)
              { l with visited := (p.accountId, p.blockNum) :: l.visited } := .inr ⟨ho, hle⟩
          exact within_settle hsettled hbefore hcalm hahead
        · refine .inl ?_
          rw [visited_settle]
          exact hcalm.visited List.mem_cons_self

/-- A turn that is not the observations' is one less to wait for. -/
theorem Within.taken (h : Within o n l) {turn : Turn}
    (hcloser : untilObservation turn < untilObservation l.lastTurn) :
    Within o n { l with lastTurn := turn, turns := l.turns + 1 } := by
  obtain hvisited | ⟨ho, hle⟩ := h
  · exact .inl hvisited
  · refine .inr ⟨ho, ?_⟩
    show l.turns + 1 + 3 * (ahead o l.rows).length + untilObservation turn ≤ n + 3 * l.failures
    omega

/-- Whatever turn it is, three more make up for it. -/
theorem Within.spent (h : Within o n l) (turn : Turn) :
    Within o (n + 3) { l with lastTurn := turn, turns := l.turns + 1 } := by
  obtain hvisited | ⟨ho, hle⟩ := h
  · exact .inl hvisited
  · refine .inr ⟨ho, ?_⟩
    have hpos := untilObservation_pos l.lastTurn
    have hmax := untilObservation_le turn
    show l.turns + 1 + 3 * (ahead o l.rows).length + untilObservation turn ≤
      n + 3 + 3 * l.failures
    omega

/-- After a failure any turn is made up for. -/
theorem within_take_fail {cfg : Config} {c : Choices} (hpast : ∀ t ∈ c.clocks, Past store o t)
    (h : Within o n l) (picked : Option Turn) : Within o n (l.fail.take cfg c picked) := by
  have hspare : ∀ turn, Within o n { l.fail with lastTurn := turn, turns := l.fail.turns + 1 } :=
    fun turn => (h.spent turn).fail
  cases picked with
  | none => exact Within.fail (h.mono (Nat.le_add_right n 3))
  | some turn =>
    cases turn with
    | observation =>
      exact within_visitNext hpast ((hspare .observation).mono (Nat.le_add_right n 3))
    | recheck => exact hspare .recheck
    | rotation => exact hspare .rotation

theorem within_turn {cfg : Config} {c : Choices} (hpast : ∀ t ∈ c.clocks, Past store o t)
    (h : Within o n l) : Within o n (l.turn cfg c) := by
  unfold Loop.turn
  cases hread : c.dueReadAt with
  | none => exact within_take_fail hpast h _
  | some now =>
    show Within o n (l.take cfg c (pickTurn l.lastTurn (isDue c l.rows)))
    have hnow : Past store o now := hpast _ (List.mem_cons_of_mem _ (by simp [hread]))
    have hvisit : Within o n (l.take cfg c (some .observation)) :=
      within_visitNext hpast (h.spent .observation)
    obtain hvisited | ⟨ho, -⟩ := id h
    · cases pickTurn l.lastTurn (isDue c l.rows) with
      | none => exact .inl hvisited
      | some turn =>
        cases turn with
        | observation => exact hvisit
        | recheck => exact .inl hvisited
        | rotation => exact .inl hvisited
    · have hdue : isDue c l.rows .observation = true := by
        simp only [isDue, hread, nextDueIn_eq_zero ho hnow.1]
        exact decide_eq_true (Nat.zero_le c.slept)
      obtain hpick | ⟨turn, hne, hpick, hcloser⟩ := pickTurn_closer l.lastTurn hdue
      · rw [hpick]
        exact hvisit
      · rw [hpick]
        cases turn with
        | observation => exact absurd rfl hne
        | recheck => exact h.taken hcloser
        | rotation => exact h.taken hcloser

theorem within_run {cfg : Config} : ∀ {events : List Event} {l : Loop store},
    (∀ e ∈ events, ∀ t ∈ e.clocks, Past store o t) → Within o n l →
      Within o n (l.run cfg events) := by
  intro events
  induction events with
  | nil => exact fun _ h => h
  | cons e events ih =>
    intro l hpast h
    refine ih (fun e he => hpast e (List.mem_cons_of_mem _ he)) ?_
    have he := hpast e List.mem_cons_self
    cases e with
    | turn c => exact within_turn he h
    | other act => exact h.calm (calm_other (he _ List.mem_cons_self) l)

end Bound

/-- A holder's loop, as it begins to be watched. -/
def Loop.start (rows : store.State) (lastTurn : Turn) : Loop store := ⟨rows, lastTurn, 0, 0, []⟩

/-- However the loop is scheduled, and whatever is recorded and settled beside it, an
observation that is due is visited within three turns for itself and for each
observation before it, and three for each failed call. -/
theorem due_observation_visited (cfg : Config) {rows : store.State} (lastTurn : Turn)
    {o : StoredObservation} (ho : o ∈ store.rows rows) {events : List Event}
    (hpast : ∀ e ∈ events, ∀ t ∈ e.clocks, Past store o t)
    (hturns : 3 * ((ahead o rows).length + 1) +
        3 * ((Loop.start rows lastTurn).run cfg events).failures ≤
      ((Loop.start rows lastTurn).run cfg events).turns) :
    (o.accountId, o.blockNum) ∈ ((Loop.start rows lastTurn).run cfg events).visited := by
  have hstart : Within o (3 * (ahead o rows).length + untilObservation lastTurn)
      (Loop.start rows lastTurn) := .inr ⟨ho, by simp [Loop.start]⟩
  obtain hvisited | ⟨-, hle⟩ := within_run hpast hstart
  · exact hvisited
  · have hpos := untilObservation_pos ((Loop.start rows lastTurn).run cfg events).lastTurn
    have hmax := untilObservation_le lastTurn
    omega

namespace Demo

/-- Two accounts observed in block 4; the second is due behind the first. -/
def rows : Postgres.store.State :=
  [⟨"a", 4, "x"⟩, ⟨"b", 4, "y"⟩].foldl (fun rows o => Postgres.store.record o 1000 rows) .empty

/-- A turn in which everything is due, and the account waits. -/
def busy (now : Instant) : Event :=
  .turn ⟨true, true, some now, 0, some now, .waiting, some 4, none, now, true,
    [.record [⟨"c", 1, "z"⟩] now]⟩

end Demo

theorem due_observation_visited_second :
    ("b", 4) ∈ ((Loop.start Demo.rows .observation).run ⟨60000, 20⟩
      ([5000, 6000, 7000, 8000, 9000, 10000].map Demo.busy)).visited :=
  due_observation_visited ⟨60000, 20⟩ .observation (o := ⟨"b", 4, "y", 0, 1000⟩)
    (by decide +kernel) (by decide +kernel) (by decide +kernel)

end Guardian.ObservationQueue
