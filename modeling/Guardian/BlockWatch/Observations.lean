import Guardian.BlockWatch.Consumer
import Guardian.Lib.Agenda
import Guardian.Metadata.Stores
import Mathlib.Data.String.Basic

/- The block watch stores (`coordination/block_watch_store.rs`,
   `coordination/postgres/block_watch_store.rs`): the cursor, the observations and
   the walks, as each backend keeps them. The in-memory store has an ordered map of
   observations by block and account; Postgres has a table with the account first,
   an index in the order of the visits, and times to the microsecond.

   `ObservationStore` says what a visitor may rely on, in terms of the rows: each
   call changes the rows of one account and block, and the next visit is the due row
   that comes first on the agenda. The laws determine every answer, so two stores
   that keep the same of a time answer the same (`Same`, `same_run`). -/
namespace Guardian.BlockWatch

open MetadataStores (Instant column)

/-! ## Rows -/

/-- `StoredObservation`, with the block and the account it is stored under. -/
structure StoredObservation where
  accountId : String
  blockNum : Nat
  onChainCommitment : Commitment
  attempts : Nat
  nextAttemptAt : Instant
  deriving DecidableEq, Repr

structure Observation where
  accountId : String
  blockNum : Nat
  onChainCommitment : Commitment
  attempts : Nat
  deriving DecidableEq, Repr

namespace StoredObservation

def observation (o : StoredObservation) : Observation :=
  ⟨o.accountId, o.blockNum, o.onChainCommitment, o.attempts⟩

/-- The key of the in-memory map, and what orders observations due together. -/
def visitKey (o : StoredObservation) : Nat ×ₗ String := toLex (o.blockNum, o.accountId)

/-- The primary key of the table. -/
def rowKey (o : StoredObservation) : String ×ₗ Nat := toLex (o.accountId, o.blockNum)

/-- The observation of an account at a block. -/
def isOf (accountId : String) (blockNum : Nat) (o : StoredObservation) : Bool :=
  o.accountId == accountId && o.blockNum == blockNum

/-- An observation as it is recorded, due at once. -/
def new (o : NewObservation) (now : Instant) : StoredObservation :=
  ⟨o.accountId, o.blockNum, o.onChainCommitment, 0, now⟩

/-- One more visit that did not check the account. -/
def deferred (attempts : Nat) (at_ : Instant) (o : StoredObservation) : StoredObservation :=
  { o with attempts := attempts, nextAttemptAt := at_ }

def postponed (at_ : Instant) (o : StoredObservation) : StoredObservation :=
  { o with nextAttemptAt := at_ }

theorem isOf_iff {accountId : String} {blockNum : Nat} {o : StoredObservation} :
    o.isOf accountId blockNum = true ↔ o.accountId = accountId ∧ o.blockNum = blockNum := by
  simp [isOf]

theorem visitKey_eq_iff {o o' : StoredObservation} :
    o.visitKey = o'.visitKey ↔ o'.isOf o.accountId o.blockNum = true := by
  rw [isOf_iff]
  constructor
  · intro h
    have hpair := toLex_inj.mp h
    exact ⟨(congrArg Prod.snd hpair).symm, (congrArg Prod.fst hpair).symm⟩
  · rintro ⟨haccount, hblock⟩
    rw [visitKey, visitKey, haccount, hblock]

theorem rowKey_eq_iff {o o' : StoredObservation} :
    o.rowKey = o'.rowKey ↔ o.visitKey = o'.visitKey := by
  rw [visitKey_eq_iff, isOf_iff]
  constructor
  · intro h
    have hpair := toLex_inj.mp h
    exact ⟨(congrArg Prod.fst hpair).symm, (congrArg Prod.snd hpair).symm⟩
  · rintro ⟨haccount, hblock⟩
    rw [rowKey, rowKey, haccount, hblock]

end StoredObservation

/-! ## The in-memory store -/

namespace InMemory

/-- `BTreeMap<(u32, String), StoredObservation>`. -/
abbrev Observations := Table StoredObservation.visitKey

namespace Observations

/-- `entry(..).or_insert_with(..)`. -/
def record (o : NewObservation) (now : Instant) (rows : Observations) : Observations :=
  rows.insert (.new o now)

/-- `next_due_observation`: `filter`, then `min_by_key`. -/
def nextDue (now : Instant) (rows : Observations) : Option StoredObservation :=
  Agenda.earliest (·.nextAttemptAt) now rows.rows

/-- `next_observation_due_at`. -/
def nextDueAt (rows : Observations) : Option Instant := (rows.rows.map (·.nextAttemptAt)).min?

def delete (accountId : String) (blockNum : Nat) (rows : Observations) : Observations :=
  Table.delete rows (·.isOf accountId blockNum)

/-- `defer_observation`: `saturating_add`. -/
def defer (accountId : String) (blockNum : Nat) (at_ : Instant) (rows : Observations) :
    Observations :=
  rows.update (·.isOf accountId blockNum)
    (fun o => o.deferred (min (o.attempts + 1) u32Max) at_) (fun _ => rfl)

def postpone (accountId : String) (blockNum : Nat) (at_ : Instant) (rows : Observations) :
    Observations :=
  rows.update (·.isOf accountId blockNum) (·.postponed at_) (fun _ => rfl)

end Observations
end InMemory

/-! ## Postgres -/

/-- The largest value of an `INTEGER` column. -/
def i32Max : Nat := 2 ^ 31 - 1

namespace Postgres

/-- `block_watch_observations`. -/
abbrev Observations := Table StoredObservation.rowKey

namespace Observations

/-- `INSERT .. ON CONFLICT (account_id, block_num) DO NOTHING`. -/
def record (o : NewObservation) (now : Instant) (rows : Observations) : Observations :=
  rows.insert (.new o (column now))

/-- `WHERE next_attempt_at <= $1 ORDER BY next_attempt_at, block_num, account_id LIMIT 1`. -/
def nextDue (now : Instant) (rows : Observations) : Option StoredObservation :=
  (Agenda.inOrder (·.nextAttemptAt) (·.visitKey) (column now) rows.rows).head?

/-- `SELECT min(next_attempt_at)`. -/
def nextDueAt (rows : Observations) : Option Instant := (rows.rows.map (·.nextAttemptAt)).min?

def delete (accountId : String) (blockNum : Nat) (rows : Observations) : Observations :=
  Table.delete rows (·.isOf accountId blockNum)

/-- `SET attempts = attempts + 1, next_attempt_at = $3`; the statement fails when
the column is at its largest value. -/
def defer (accountId : String) (blockNum : Nat) (at_ : Instant) (rows : Observations) :
    Option Observations :=
  if rows.rows.any (fun o => o.isOf accountId blockNum && decide (i32Max ≤ o.attempts)) then none
  else
    some (rows.update (·.isOf accountId blockNum)
      (fun o => o.deferred (o.attempts + 1) (column at_)) (fun _ => rfl))

def postpone (accountId : String) (blockNum : Nat) (at_ : Instant) (rows : Observations) :
    Observations :=
  rows.update (·.isOf accountId blockNum) (·.postponed (column at_)) (fun _ => rfl)

end Observations
end Postgres

/-! ## What a visitor relies on -/

/-- The row to visit at a time. -/
abbrev FirstDue (now : Instant) (rows : List StoredObservation) (o : StoredObservation) : Prop :=
  Agenda.First (·.nextAttemptAt) (·.visitKey) now rows o

/-- A store of observations, and what its calls do to its rows. -/
structure ObservationStore where
  State : Type
  rows : State → List StoredObservation
  empty : State
  /-- What the store keeps of a time. -/
  kept : Instant → Instant
  record : NewObservation → Instant → State → State
  nextDue : Instant → State → Option StoredObservation
  nextDueAt : State → Option Instant
  delete : String → Nat → State → State
  /-- `none` when the store refuses. -/
  defer : String → Nat → Instant → State → Option State
  postpone : String → Nat → Instant → State → State
  kept_mono : Monotone kept
  nodup : ∀ s, (rows s).Nodup
  distinct : ∀ s, Agenda.Distinct StoredObservation.visitKey (rows s)
  mem_empty : ∀ o, o ∉ rows empty
  mem_record : ∀ {new now s o}, o ∈ rows (record new now s) ↔ o ∈ rows s ∨
    (o = .new new (kept now) ∧ ∀ r ∈ rows s, r.isOf new.accountId new.blockNum = false)
  nextDue_iff : ∀ {now s o}, nextDue now s = some o ↔ FirstDue (kept now) (rows s) o
  nextDueAt_eq : ∀ s, nextDueAt s = ((rows s).map (·.nextAttemptAt)).min?
  mem_delete : ∀ {accountId blockNum s o}, o ∈ rows (delete accountId blockNum s) ↔
    o ∈ rows s ∧ o.isOf accountId blockNum = false
  mem_defer : ∀ {accountId blockNum at_ s s'}, defer accountId blockNum at_ s = some s' →
    ∀ {o}, o ∈ rows s' ↔
      (∃ r ∈ rows s, r.isOf accountId blockNum = true ∧
        o = r.deferred (min (r.attempts + 1) u32Max) (kept at_)) ∨
      (o ∈ rows s ∧ o.isOf accountId blockNum = false)
  mem_postpone : ∀ {accountId blockNum at_ s o}, o ∈ rows (postpone accountId blockNum at_ s) ↔
    (∃ r ∈ rows s, r.isOf accountId blockNum = true ∧ o = r.postponed (kept at_)) ∨
    (o ∈ rows s ∧ o.isOf accountId blockNum = false)

/-- Rows whose key is the account and the block. -/
theorem nodup_rows {κ : Type} [LinearOrder κ] {key : StoredObservation → κ} (t : Table key) :
    t.rows.Nodup := t.sorted.imp fun hlt heq => hlt.ne (congrArg key heq)

theorem key_ne_new_iff {new : NewObservation} {now : Instant} {r : StoredObservation} :
    r.visitKey ≠ (StoredObservation.new new now).visitKey ↔
      r.isOf new.accountId new.blockNum = false := by
  rw [ne_comm, Ne, StoredObservation.visitKey_eq_iff, Bool.not_eq_true]
  rfl

/-- The in-memory store. -/
def InMemory.store : ObservationStore where
  State := InMemory.Observations
  rows := Table.rows
  empty := .empty
  kept := id
  record := InMemory.Observations.record
  nextDue := InMemory.Observations.nextDue
  nextDueAt := InMemory.Observations.nextDueAt
  delete := InMemory.Observations.delete
  defer := fun accountId blockNum at_ s =>
    some (InMemory.Observations.defer accountId blockNum at_ s)
  postpone := InMemory.Observations.postpone
  kept_mono := monotone_id
  nodup := nodup_rows
  distinct := Agenda.distinct_rows
  mem_empty := fun _ => List.not_mem_nil
  mem_record := by
    intro new now s o
    refine Table.mem_insert_iff.trans (or_congr Iff.rfl (and_congr Iff.rfl ?_))
    exact forall_congr' fun r => imp_congr Iff.rfl key_ne_new_iff
  nextDue_iff := Agenda.earliest_eq_some_iff _
  nextDueAt_eq := fun _ => rfl
  mem_delete := Table.mem_delete
  mem_defer := fun h _ => by
    cases h
    exact Table.mem_update
  mem_postpone := Table.mem_update

theorem column_mono : Monotone column := by
  intro a b h
  exact Int.mul_le_mul_of_nonneg_left (Int.tdiv_le_tdiv (by decide) h) (by decide)

theorem Postgres.mem_defer {accountId : String} {blockNum : Nat} {at_ : Instant}
    {s s' : Postgres.Observations} (h : s.defer accountId blockNum at_ = some s')
    {o : StoredObservation} : o ∈ s'.rows ↔
      (∃ r ∈ s.rows, r.isOf accountId blockNum = true ∧
        o = r.deferred (min (r.attempts + 1) u32Max) (column at_)) ∨
      (o ∈ s.rows ∧ o.isOf accountId blockNum = false) := by
  unfold Postgres.Observations.defer at h
  split at h
  · cases h
  · next hroom =>
    cases h
    refine Table.mem_update.trans (or_congr (exists_congr fun r => ?_) Iff.rfl)
    refine and_congr_right fun hr => and_congr_right fun hof => ?_
    -- a row the statement may count up is below what the map saturates at
    have hlt : r.attempts < i32Max := by
      by_contra hle
      refine hroom (List.any_eq_true.mpr ⟨r, hr, ?_⟩)
      rw [hof, Bool.true_and]
      exact decide_eq_true (not_lt.mp hle)
    have hmin : min (r.attempts + 1) u32Max = r.attempts + 1 :=
      Nat.min_eq_left (by unfold i32Max at hlt; unfold u32Max; omega)
    rw [hmin]

/-- Postgres. -/
def Postgres.store : ObservationStore where
  State := Postgres.Observations
  rows := Table.rows
  empty := .empty
  kept := column
  record := Postgres.Observations.record
  nextDue := Postgres.Observations.nextDue
  nextDueAt := Postgres.Observations.nextDueAt
  delete := Postgres.Observations.delete
  defer := Postgres.Observations.defer
  postpone := Postgres.Observations.postpone
  kept_mono := column_mono
  nodup := nodup_rows
  distinct := fun s a ha b hb h => Table.eq_of_key ha hb (StoredObservation.rowKey_eq_iff.mpr h)
  mem_empty := fun _ => List.not_mem_nil
  mem_record := by
    intro new now s o
    refine Table.mem_insert_iff.trans (or_congr Iff.rfl (and_congr Iff.rfl ?_))
    refine forall_congr' fun r => imp_congr Iff.rfl ?_
    exact (not_congr StoredObservation.rowKey_eq_iff).trans key_ne_new_iff
  nextDue_iff := by
    intro now s o
    refine Agenda.head_inOrder_iff fun a ha b hb h => ?_
    exact Table.eq_of_key ha hb (StoredObservation.rowKey_eq_iff.mpr h)
  nextDueAt_eq := fun _ => rfl
  mem_delete := Table.mem_delete
  mem_defer := Postgres.mem_defer
  mem_postpone := Table.mem_update

/-! ## Whole stores -/

/-- `InMemoryBlockWatchStore::set_cursor`. -/
def InMemory.setCursor (block : Nat) (genesis : Option String) (current : Option Cursor) :
    CursorWrite × Option Cursor :=
  if current.any (fun current => decide (block ≤ current.lastBlock)) then (.notForward, current)
  else (.advanced, some ⟨block, genesis.or (current.bind (·.genesis))⟩)

inductive CursorMove where
  | forward
  | reset
  deriving DecidableEq, Repr

/-- `write_cursor`, under a current lease: `INSERT .. ON CONFLICT (network) DO
UPDATE .. WHERE ..`. -/
def Postgres.writeCursor (movement : CursorMove) (block : Nat) (genesis : Option String) :
    Option Cursor → CursorWrite × Option Cursor
  | none => (.advanced, some ⟨block, genesis⟩)
  | some row =>
    match movement with
    | .forward =>
      if row.lastBlock < block then (.advanced, some ⟨block, genesis.or row.genesis⟩)
      else (.notForward, some row)
    | .reset => (.advanced, some ⟨block, genesis⟩)

/-- A backend, used under a current lease. -/
structure BlockWatchStore extends ObservationStore where
  setCursor : Nat → Option String → Option Cursor → CursorWrite × Option Cursor
  resetCursor : Nat → Option String → Option Cursor → CursorWrite × Option Cursor
  /-- `none` when the store refuses. -/
  requestWalk : Option WalkRequests → Option WalkRequests

def InMemory.blockWatchStore : BlockWatchStore where
  toObservationStore := InMemory.store
  setCursor := InMemory.setCursor
  resetCursor := fun block genesis _ => (.advanced, some ⟨block, genesis⟩)
  requestWalk := fun walks => some (InMemory.requestWalk walks)

def Postgres.blockWatchStore : BlockWatchStore where
  toObservationStore := Postgres.store
  setCursor := Postgres.writeCursor .forward
  resetCursor := Postgres.writeCursor .reset
  requestWalk := Postgres.requestWalk

/-- What a store holds, by network. -/
structure Stored (store : BlockWatchStore) where
  observations : store.State
  cursors : String → Option Cursor
  walks : String → Option WalkRequests

inductive StoreOp where
  | cursor (network : String)
  | setCursor (network : String) (block : Nat) (genesis : Option String)
  | resetCursor (network : String) (block : Nat) (genesis : Option String)
  | recordObservations (observations : List NewObservation) (now : Instant)
  | nextDueObservation (now : Instant)
  | nextObservationDueAt
  | deleteObservation (accountId : String) (blockNum : Nat)
  | deferObservation (accountId : String) (blockNum : Nat) (nextAttemptAt : Instant)
  | postponeObservation (accountId : String) (blockNum : Nat) (nextAttemptAt : Instant)
  | countPendingObservations
  | walkRequests (network : String)
  | requestWalk (network : String)
  | completeWalk (network : String) (startedUnder : Nat)
  deriving DecidableEq, Repr

inductive StoreAnswer where
  | done
  | failed
  | cursor (cursor : Option Cursor)
  | cursorWrite (write : CursorWrite)
  | observation (observation : Option Observation)
  | dueAt (at_ : Option Instant)
  | count (n : Nat)
  | walks (walks : Option WalkRequests)
  deriving DecidableEq, Repr

namespace Stored
variable {store : BlockWatchStore}

def start : Stored store := ⟨store.empty, fun _ => none, fun _ => none⟩

def putCursor (network : String) (result : CursorWrite × Option Cursor) (s : Stored store) :
    StoreAnswer × Stored store :=
  (.cursorWrite result.1, { s with cursors := Function.update s.cursors network result.2 })

/-- The call of an operation. -/
def exec : StoreOp → Stored store → StoreAnswer × Stored store
  | .cursor network, s => (.cursor (s.cursors network), s)
  | .setCursor network block genesis, s =>
    s.putCursor network (store.setCursor block genesis (s.cursors network))
  | .resetCursor network block genesis, s =>
    s.putCursor network (store.resetCursor block genesis (s.cursors network))
  | .recordObservations new now, s =>
    (.done, { s with
      observations := new.foldl (fun rows o => store.record o now rows) s.observations })
  | .nextDueObservation now, s =>
    (.observation ((store.nextDue now s.observations).map (·.observation)), s)
  | .nextObservationDueAt, s => (.dueAt (store.nextDueAt s.observations), s)
  | .deleteObservation accountId blockNum, s =>
    (.done, { s with observations := store.delete accountId blockNum s.observations })
  | .deferObservation accountId blockNum at_, s =>
    match store.defer accountId blockNum at_ s.observations with
    | some observations => (.done, { s with observations })
    | none => (.failed, s)
  | .postponeObservation accountId blockNum at_, s =>
    (.done, { s with observations := store.postpone accountId blockNum at_ s.observations })
  | .countPendingObservations, s => (.count (store.rows s.observations).length, s)
  | .walkRequests network, s => (.walks (s.walks network), s)
  | .requestWalk network, s =>
    match store.requestWalk (s.walks network) with
    | some walks => (.done, { s with walks := Function.update s.walks network (some walks) })
    | none => (.failed, s)
  | .completeWalk network startedUnder, s =>
    (.done, { s with
      walks := Function.update s.walks network (completeWalk startedUnder (s.walks network)) })

/-- The answers of a sequence of operations. -/
def answers : List StoreOp → Stored store → List StoreAnswer
  | [], _ => []
  | op :: ops, s => (s.exec op).1 :: answers ops (s.exec op).2

end Stored

/-- An operation whose times are cut as the store keeps them. -/
def StoreOp.keeping (kept : Instant → Instant) : StoreOp → StoreOp
  | .recordObservations new now => .recordObservations new (kept now)
  | .nextDueObservation now => .nextDueObservation (kept now)
  | .deferObservation accountId blockNum at_ => .deferObservation accountId blockNum (kept at_)
  | .postponeObservation accountId blockNum at_ =>
    .postponeObservation accountId blockNum (kept at_)
  | op => op

/-! ## Agreement -/

/-- The same rows. -/
def SameRows {A B : ObservationStore} (s : A.State) (t : B.State) : Prop :=
  ∀ o, o ∈ A.rows s ↔ o ∈ B.rows t

namespace SameRows
variable {A B : ObservationStore} {s : A.State} {t : B.State} (h : SameRows s t)
  {accountId : String} {blockNum : Nat} {at_ now : Instant}
include h

theorem perm : (A.rows s).Perm (B.rows t) :=
  (List.perm_ext_iff_of_nodup (A.nodup s) (B.nodup t)).mpr h

theorem nextDueAt : A.nextDueAt s = B.nextDueAt t := by
  have hmem : ∀ at_, at_ ∈ (A.rows s).map (·.nextAttemptAt) ↔
      at_ ∈ (B.rows t).map (·.nextAttemptAt) := fun _ => (h.perm.map _).mem_iff
  rw [A.nextDueAt_eq, B.nextDueAt_eq]
  ext at_
  rw [List.min?_eq_some_iff, List.min?_eq_some_iff]
  exact and_congr (hmem at_) (forall_congr' fun other => imp_congr (hmem other) Iff.rfl)

theorem nextDue (hkept : A.kept now = B.kept at_) : A.nextDue now s = B.nextDue at_ t := by
  ext o
  rw [A.nextDue_iff, B.nextDue_iff, hkept]
  exact ⟨.congr h, .congr fun o => (h o).symm⟩

theorem record {new : NewObservation} (hkept : A.kept now = B.kept at_) :
    SameRows (A.record new now s) (B.record new at_ t) := by
  intro o
  rw [A.mem_record, B.mem_record, hkept]
  exact or_congr (h o) (and_congr Iff.rfl (forall_congr' fun r => imp_congr (h r) Iff.rfl))

theorem delete : SameRows (A.delete accountId blockNum s) (B.delete accountId blockNum t) := by
  intro o
  rw [A.mem_delete, B.mem_delete]
  exact and_congr (h o) Iff.rfl

theorem postpone (hkept : A.kept now = B.kept at_) :
    SameRows (A.postpone accountId blockNum now s) (B.postpone accountId blockNum at_ t) := by
  intro o
  rw [A.mem_postpone, B.mem_postpone, hkept]
  exact or_congr (exists_congr fun r => and_congr (h r) Iff.rfl) (and_congr (h o) Iff.rfl)

theorem defer {s' : A.State} {t' : B.State} (hkept : A.kept now = B.kept at_)
    (hs : A.defer accountId blockNum now s = some s')
    (ht : B.defer accountId blockNum at_ t = some t') : SameRows s' t' := by
  intro o
  rw [A.mem_defer hs, B.mem_defer ht, hkept]
  exact or_congr (exists_congr fun r => and_congr (h r) Iff.rfl) (and_congr (h o) Iff.rfl)

end SameRows

/-- The same rows, cursors and walks. -/
structure Same {A B : BlockWatchStore} (s : Stored A) (t : Stored B) : Prop where
  rows : SameRows s.observations t.observations
  cursors : s.cursors = t.cursors
  walks : s.walks = t.walks

theorem setCursor_eq (block : Nat) (genesis : Option String) (current : Option Cursor) :
    InMemory.setCursor block genesis current =
      Postgres.writeCursor .forward block genesis current := by
  cases current with
  | none => cases genesis <;> rfl
  | some row =>
    by_cases h : row.lastBlock < block
    · simp [InMemory.setCursor, Postgres.writeCursor, h]
    · simp [InMemory.setCursor, Postgres.writeCursor, h, Nat.le_of_not_lt h]

theorem resetCursor_eq (block : Nat) (genesis : Option String) (current : Option Cursor) :
    InMemory.blockWatchStore.resetCursor block genesis current =
      Postgres.writeCursor .reset block genesis current := by
  cases current <;> rfl

/-- A request Postgres takes, both count. -/
theorem requestWalk_eq {walks : Option WalkRequests} {walks' : WalkRequests}
    (h : Postgres.requestWalk walks = some walks') : InMemory.requestWalk walks = walks' := by
  cases walks with
  | none => cases h; rfl
  | some walks =>
    simp only [Postgres.requestWalk] at h
    split at h
    · next hlt =>
      cases h
      simp only [InMemory.requestWalk, Option.getD_some, WalkRequests.mk.injEq, and_true]
      exact Nat.min_eq_left hlt
    · cases h

theorem SameRows.recordAll {A B : ObservationStore} {now at_ : Instant}
    (hkept : A.kept now = B.kept at_) (new : List NewObservation) : ∀ {s : A.State} {t : B.State},
      SameRows s t → SameRows (new.foldl (fun rows o => A.record o now rows) s)
        (new.foldl (fun rows o => B.record o at_ rows) t) := by
  induction new with
  | nil => exact fun h => h
  | cons o new ih => exact fun h => ih (h.record hkept)

/-- Postgres keeps of a time what the map keeps of its microseconds. -/
theorem kept_column (now : Instant) :
    Postgres.blockWatchStore.kept now = InMemory.blockWatchStore.kept (column now) := rfl

section Exec
variable {s : Stored Postgres.blockWatchStore} {t : Stored InMemory.blockWatchStore}

theorem Same.putCursor (h : Same s t) (network : String) (result : CursorWrite × Option Cursor) :
    (s.putCursor network result).1 = (t.putCursor network result).1 ∧
      Same (s.putCursor network result).2 (t.putCursor network result).2 := by
  refine ⟨rfl, h.rows, ?_, h.walks⟩
  show Function.update s.cursors network result.2 = Function.update t.cursors network result.2
  rw [h.cursors]

theorem Same.putWalks (h : Same s t) (network : String) (walks : Option WalkRequests) :
    Same { s with walks := Function.update s.walks network walks }
      { t with walks := Function.update t.walks network walks } :=
  ⟨h.rows, h.cursors, by rw [h.walks]⟩

/-- An operation Postgres does not refuse is answered the same, and leaves the
stores the same. -/
theorem same_exec {op : StoreOp} (h : Same s t) (hroom : (s.exec op).1 ≠ .failed) :
    (s.exec op).1 = (t.exec (op.keeping column)).1 ∧
      Same (s.exec op).2 (t.exec (op.keeping column)).2 := by
  have hsame := h
  obtain ⟨hrows, hcursors, hwalks⟩ := h
  cases op with
  | cursor network =>
    refine ⟨?_, hsame⟩
    show StoreAnswer.cursor (s.cursors network) = .cursor (t.cursors network)
    rw [hcursors]
  | setCursor network block genesis =>
    have ht : t.exec (.setCursor network block genesis) =
        t.putCursor network (Postgres.writeCursor .forward block genesis (s.cursors network)) := by
      rw [hcursors, ← setCursor_eq]
      rfl
    show (s.putCursor network _).1 = (t.exec (.setCursor network block genesis)).1 ∧
      Same (s.putCursor network _).2 (t.exec (.setCursor network block genesis)).2
    rw [ht]
    exact hsame.putCursor network _
  | resetCursor network block genesis =>
    have ht : t.exec (.resetCursor network block genesis) =
        t.putCursor network (Postgres.writeCursor .reset block genesis (s.cursors network)) := by
      rw [← resetCursor_eq]
      rfl
    show (s.putCursor network _).1 = (t.exec (.resetCursor network block genesis)).1 ∧
      Same (s.putCursor network _).2 (t.exec (.resetCursor network block genesis)).2
    rw [ht]
    exact hsame.putCursor network _
  | recordObservations new now =>
    exact ⟨rfl, SameRows.recordAll (kept_column now) new hrows, hcursors, hwalks⟩
  | nextDueObservation now =>
    refine ⟨?_, hsame⟩
    show StoreAnswer.observation ((Postgres.blockWatchStore.nextDue now s.observations).map _) =
      .observation ((InMemory.blockWatchStore.nextDue (column now) t.observations).map _)
    rw [hrows.nextDue (kept_column now)]
  | nextObservationDueAt => exact ⟨congrArg StoreAnswer.dueAt hrows.nextDueAt, hsame⟩
  | deleteObservation accountId blockNum => exact ⟨rfl, hrows.delete, hcursors, hwalks⟩
  | deferObservation accountId blockNum at_ =>
    cases hs : Postgres.blockWatchStore.defer accountId blockNum at_ s.observations with
    | none =>
      simp only [Stored.exec, hs] at hroom
      exact absurd rfl hroom
    | some rows =>
      simp only [Stored.exec, hs, StoreOp.keeping]
      exact ⟨rfl, hrows.defer (kept_column at_) hs rfl, hcursors, hwalks⟩
  | postponeObservation accountId blockNum at_ =>
    exact ⟨rfl, hrows.postpone (kept_column at_), hcursors, hwalks⟩
  | countPendingObservations => exact ⟨congrArg StoreAnswer.count hrows.perm.length_eq, hsame⟩
  | walkRequests network =>
    refine ⟨?_, hsame⟩
    show StoreAnswer.walks (s.walks network) = .walks (t.walks network)
    rw [hwalks]
  | requestWalk network =>
    cases hs : Postgres.blockWatchStore.requestWalk (s.walks network) with
    | none =>
      simp only [Stored.exec, hs] at hroom
      exact absurd rfl hroom
    | some walks =>
      have ht : InMemory.blockWatchStore.requestWalk (t.walks network) = some walks := by
        rw [← hwalks]
        exact congrArg some (requestWalk_eq hs)
      simp only [Stored.exec, hs, StoreOp.keeping, ht]
      exact ⟨trivial, hsame.putWalks network (some walks)⟩
  | completeWalk network startedUnder =>
    refine ⟨rfl, hrows, hcursors, ?_⟩
    show Function.update s.walks network _ = Function.update t.walks network _
    rw [hwalks]

theorem same_answers : ∀ {ops : List StoreOp} {s : Stored Postgres.blockWatchStore}
    {t : Stored InMemory.blockWatchStore}, Same s t → .failed ∉ s.answers ops →
      s.answers ops = t.answers (ops.map (·.keeping column)) := by
  intro ops
  induction ops with
  | nil => exact fun _ _ => rfl
  | cons op ops ih =>
    intro s t h hroom
    obtain ⟨hhead, htail⟩ := not_or.mp fun hmem => hroom (List.mem_cons.mpr hmem)
    obtain ⟨hanswer, hsame⟩ := same_exec h fun heq => hhead heq.symm
    exact congrArg₂ List.cons hanswer (ih hsame htail)

end Exec

/-- From the start, any sequence of calls that Postgres does not refuse is answered
as the in-memory store answers it, with every time cut to the microsecond. -/
theorem block_watch_stores_agree {ops : List StoreOp}
    (hroom : .failed ∉ (Stored.start : Stored Postgres.blockWatchStore).answers ops) :
    (Stored.start : Stored Postgres.blockWatchStore).answers ops =
      (Stored.start : Stored InMemory.blockWatchStore).answers (ops.map (·.keeping column)) := by
  refine same_answers ⟨fun o => ?_, rfl, rfl⟩ hroom
  exact iff_of_false (Postgres.store.mem_empty o) (InMemory.store.mem_empty o)

namespace Demo

/-- Two observations, one of them visited, deferred and overtaken by a third. -/
def visits : List StoreOp :=
  [.setCursor "devnet" 4 (some "g"), .recordObservations [⟨"b", 4, "x"⟩, ⟨"a", 4, "y"⟩] 1500,
    .nextDueObservation 2000, .deferObservation "a" 4 9000, .nextDueObservation 2000,
    .recordObservations [⟨"a", 5, "z"⟩] 3000, .nextObservationDueAt, .nextDueObservation 9000,
    .setCursor "devnet" 4 none, .requestWalk "devnet", .countPendingObservations]

end Demo

theorem block_watch_stores_agree_visits :
    (Stored.start : Stored Postgres.blockWatchStore).answers Demo.visits =
      (Stored.start : Stored InMemory.blockWatchStore).answers
        (Demo.visits.map (·.keeping column)) :=
  block_watch_stores_agree (by decide +kernel)

end Guardian.BlockWatch
