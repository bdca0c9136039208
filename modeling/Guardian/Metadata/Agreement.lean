import Guardian.Metadata.Stores

/- The two metadata stores, side by side: over every sequence of operations they
   answer the same and hold the same records, up to the microseconds Postgres
   keeps.

   They part where a `set` of an existing account carries another creation time
   or pending-candidate flag than the account has: Postgres keeps its columns,
   the filesystem store takes the entry's. No other operation reads either
   field, so all else still agrees; `view exact` is what is compared, with the
   two fields (`exact`) or without. -/
namespace Guardian.MetadataStores

open Replay

/-! ## What is compared -/

@[simp] theorem column_column (t : Instant) : column (column t) = column t := by
  simp [column, Int.mul_tdiv_cancel_left]

@[simp] theorem column_comp_column : column ∘ column = column := funext column_column

/-- A record to the microsecond, with its creation time and its flag if `exact`. -/
def AccountMetadata.view (exact : Bool) (m : AccountMetadata) : AccountMetadata :=
  { Tables.newMetadata m with
    createdAt := if exact then column m.createdAt else 0
    hasPendingCandidate := exact && m.hasPendingCandidate }

theorem view_eq_iff {exact : Bool} {m m' : AccountMetadata} : m.view exact = m'.view exact ↔
    m.accountId = m'.accountId ∧ m.auth = m'.auth ∧ m.networkConfig = m'.networkConfig ∧
    column m.updatedAt = column m'.updatedAt ∧ m.pausedAt.map column = m'.pausedAt.map column ∧
    m.pausedReason = m'.pausedReason ∧ m.releasedAt.map column = m'.releasedAt.map column ∧
    (exact = true → column m.createdAt = column m'.createdAt ∧
      m.hasPendingCandidate = m'.hasPendingCandidate) := by
  cases exact with
  | false => simp [AccountMetadata.view, Tables.newMetadata]
  | true =>
    simp only [AccountMetadata.view, Tables.newMetadata, AccountMetadata.mk.injEq]
    tauto

@[simp] theorem view_newMetadata (exact : Bool) (m : AccountMetadata) :
    (Tables.newMetadata m).view exact = m.view exact := by
  rw [view_eq_iff]
  simp [Tables.newMetadata]

/-- An answer to the microsecond. -/
def Answer.seen : Answer → Answer
  | .pause t => .pause { t with pausedAt := t.pausedAt.map column }
  | answer => answer

/-- An outcome to the microsecond; errors are alike. -/
def Outcome.seen (outcome : Outcome) : Option Answer := outcome.toOption.map Answer.seen

/-- A release is checked against a stored state, and a signer is named as the
server names signers. -/
def Op.Fits (states : States) : Op → Prop
  | .setReleasedIfState accountId _ _ => states accountId ≠ none
  | .clearReleasedIfState accountId _ => states accountId ≠ none
  | .updateLastAuthTimestampCas _ signer _ => ':' ∉ signer.toList
  | _ => True

/-- A `set` of an existing account carries its creation time and its flag. -/
def Op.Carries (s : Tables) : Op → Prop
  | .set metadata => ∀ row, s.rows metadata.accountId = some row →
      column metadata.createdAt = column row.createdAt ∧
      metadata.hasPendingCandidate = row.hasPendingCandidate
  | _ => True

/-- The stores hold the same records, each under its account, and the same
floors, only of accounts. -/
structure Agrees (exact : Bool) (files : Files) (tables : Tables) : Prop where
  records : ∀ accountId, (files.cache accountId).map (·.view exact) =
    (tables.rows accountId).map (·.view exact)
  keyed : ∀ accountId row, tables.rows accountId = some row → row.accountId = accountId
  floors : ∀ accountId signer, ':' ∉ signer.toList →
    files.authState (Filesystem.authStateKey accountId signer) =
      tables.authState (accountId, signer)
  referenced : ∀ accountId signer, tables.authState (accountId, signer) ≠ none →
    tables.rows accountId ≠ none

/-! ## Steps -/

section Steps
variable {exact : Bool} {files : Files} {tables : Tables}

theorem Agrees.row_cases (h : Agrees exact files tables) (accountId : String) :
    (files.cache accountId = none ∧ tables.rows accountId = none) ∨
    ∃ m row, files.cache accountId = some m ∧ tables.rows accountId = some row ∧
      m.view exact = row.view exact ∧ row.accountId = accountId := by
  have hrecords := h.records accountId
  cases hm : files.cache accountId with
  | none =>
    rw [hm] at hrecords
    exact .inl ⟨rfl, Option.map_eq_none_iff.mp hrecords.symm⟩
  | some m =>
    rw [hm] at hrecords
    obtain ⟨row, hrow, heq⟩ := Option.map_eq_some_iff.mp hrecords.symm
    exact .inr ⟨m, row, rfl, hrow, heq.symm, h.keyed accountId row hrow⟩

/-- Both write a record of one account. -/
theorem Agrees.put (h : Agrees exact files tables) {m row : AccountMetadata} {accountId : String}
    (hview : m.view exact = row.view exact) (hkey : row.accountId = accountId) :
    Agrees exact (files.put m accountId) (tables.put row accountId) where
  records := by
    intro id
    by_cases hid : id = accountId
    · subst hid
      simp [Files.put, Tables.put, hview]
    · simpa [Files.put, Tables.put, Function.update_of_ne hid] using h.records id
  keyed := by
    intro id row' hrow
    by_cases hid : id = accountId
    · subst hid
      simp only [Tables.put, Function.update_self, Option.some.injEq] at hrow
      exact hrow ▸ hkey
    · simp only [Tables.put, Function.update_of_ne hid] at hrow
      exact h.keyed id row' hrow
  floors := h.floors
  referenced := by
    intro id signer hfloor
    by_cases hid : id = accountId
    · subst hid
      simp [Tables.put]
    · simpa [Tables.put, Function.update_of_ne hid] using h.referenced id signer hfloor

/-- The filesystem store writes back what it read. -/
theorem Agrees.putBack (h : Agrees exact files tables) {m : AccountMetadata} {accountId : String}
    (hm : files.cache accountId = some m) : Agrees exact (files.put m accountId) tables := by
  have hsame : files.put m accountId = files := by
    unfold Files.put
    rw [← hm, Function.update_eq_self]
  rw [hsame]
  exact h

theorem Agrees.set (h : Agrees exact files tables) (metadata : AccountMetadata)
    (hcarries : exact = true → (Op.set metadata).Carries tables) :
    Agrees exact (files.set metadata) (tables.set metadata) := by
  obtain ⟨hm, hrow⟩ | ⟨m, row, hm, hrow, hview, hkey⟩ := h.row_cases metadata.accountId
  · simp only [Files.set, Tables.set, hm, hrow]
    exact h.put (view_newMetadata exact metadata).symm rfl
  · simp only [Files.set, Tables.set, hm, hrow]
    refine h.put ?_ hkey
    obtain ⟨-, -, -, -, hpaused, hreason, hreleased, -⟩ := view_eq_iff.mp hview
    rw [view_eq_iff]
    exact ⟨hkey.symm, rfl, rfl, (column_column _).symm, hpaused, hreason, hreleased,
      fun hexact => hcarries hexact row hrow⟩

/-- The same outcome, and stores that agree. -/
def Same (exact : Bool) (a : Outcome × Files) (b : Outcome × Tables) : Prop :=
  a.1.seen = b.1.seen ∧ Agrees exact a.2 b.2

theorem same_create (h : Agrees exact files tables) (metadata : AccountMetadata) :
    Same exact (files.create metadata) (tables.create metadata) := by
  obtain ⟨hm, hrow⟩ | ⟨m, row, hm, hrow, -, -⟩ := h.row_cases metadata.accountId
  · simp only [Files.create, Tables.create, hm, hrow]
    exact ⟨rfl, h.put (view_newMetadata exact metadata).symm rfl⟩
  · simp only [Files.create, Tables.create, hm, hrow]
    exact ⟨rfl, h⟩

theorem same_updateAuth (h : Agrees exact files tables) (accountId : String) (newAuth : Auth)
    (now : Instant) : Same exact (updateAuth Files.get Files.set accountId newAuth now files)
      (updateAuth Tables.get Tables.set accountId newAuth now tables) := by
  obtain ⟨hm, hrow⟩ | ⟨m, row, hm, hrow, hview, hkey⟩ := h.row_cases accountId
  · simp only [updateAuth, Files.get, Tables.get, hm, hrow]
    exact ⟨rfl, h⟩
  · obtain ⟨hid, hauth, hnetwork, -, hpaused, hreason, hreleased, hrest⟩ := view_eq_iff.mp hview
    subst hkey
    simp only [updateAuth, Files.get, Tables.get, hm, hrow, hauth]
    by_cases hsame : row.auth = newAuth
    · rw [if_pos hsame, if_pos hsame]
      exact ⟨rfl, h⟩
    · rw [if_neg hsame, if_neg hsame]
      refine ⟨rfl, ?_⟩
      simp only [Files.set, Tables.set, hid, hm, hrow]
      refine h.put ?_ rfl
      rw [view_eq_iff]
      exact ⟨rfl, rfl, hnetwork, (column_column _).symm, hpaused, hreason, hreleased, hrest⟩

theorem isSome_of_map_column {a b : Option Instant} (h : a.map column = b.map column) :
    a.isSome = b.isSome := by
  simpa using congrArg Option.isSome h

theorem status_of_view {m row : AccountMetadata} (h : m.pausedAt.map column = row.pausedAt.map column) :
    m.status = row.status := by
  rw [AccountMetadata.status, AccountMetadata.status, isSome_of_map_column h]

theorem same_setPause (h : Agrees exact files tables) (accountId : String) (now : Instant)
    (reason : String) :
    Same exact (files.setPause accountId now reason) (tables.setPause accountId now reason) := by
  obtain ⟨hm, hrow⟩ | ⟨m, row, hm, hrow, hview, hkey⟩ := h.row_cases accountId
  · simp only [Files.setPause, Tables.setPause, hm, hrow]
    exact ⟨rfl, h⟩
  · obtain ⟨hid, hauth, hnetwork, hupdated, hpaused, hreason, hreleased, hrest⟩ :=
      view_eq_iff.mp hview
    have hstatus := status_of_view hpaused
    simp only [Files.setPause, Tables.setPause, hm, hrow]
    by_cases hactive : row.status = .active
    · have hnot : ¬m.pausedAt.isSome = true := by
        rw [← hstatus, AccountMetadata.status] at hactive
        split at hactive
        · cases hactive
        · assumption
      rw [if_pos hactive, if_neg hnot]
      refine ⟨by simp [hstatus, Outcome.seen, Except.toOption], h.put ?_ hkey⟩
      rw [view_eq_iff]
      exact ⟨hid, hauth, hnetwork, hupdated, by simp, rfl, hreleased, hrest⟩
    · have hpausedm : m.pausedAt.isSome = true := by
        rw [← hstatus, AccountMetadata.status] at hactive
        split at hactive
        · assumption
        · exact absurd rfl hactive
      rw [if_neg hactive, if_pos hpausedm]
      refine ⟨?_, h.putBack hm⟩
      simp [hstatus, Outcome.seen, Except.toOption, Answer.seen, hpaused, hreason]

theorem same_clearPause (h : Agrees exact files tables) (accountId : String) :
    Same exact (files.clearPause accountId) (tables.clearPause accountId) := by
  obtain ⟨hm, hrow⟩ | ⟨m, row, hm, hrow, hview, hkey⟩ := h.row_cases accountId
  · simp only [Files.clearPause, Tables.clearPause, hm, hrow]
    exact ⟨rfl, h⟩
  · obtain ⟨hid, hauth, hnetwork, hupdated, hpaused, -, hreleased, hrest⟩ := view_eq_iff.mp hview
    simp only [Files.clearPause, Tables.clearPause, hm, hrow, status_of_view hpaused]
    refine ⟨rfl, h.put ?_ hkey⟩
    rw [view_eq_iff]
    exact ⟨hid, hauth, hnetwork, hupdated, rfl, rfl, hreleased, hrest⟩

theorem same_setReleasedIfState (h : Agrees exact files tables) {states : States}
    {accountId : String} (hstored : states accountId ≠ none) (now : Instant)
    (expected : Commitment) :
    Same exact (files.setReleasedIfState states accountId now expected)
      (tables.setReleasedIfState states accountId now expected) := by
  obtain ⟨hm, hrow⟩ | ⟨m, row, hm, hrow, hview, hkey⟩ := h.row_cases accountId
  · simp only [Files.setReleasedIfState, Tables.setReleasedIfState, hm, hrow]
    exact ⟨rfl, h⟩
  · obtain ⟨hid, hauth, hnetwork, hupdated, hpaused, hreason, hreleased, hrest⟩ :=
      view_eq_iff.mp hview
    obtain ⟨current, hcurrent⟩ := Option.ne_none_iff_exists'.mp hstored
    simp only [Files.setReleasedIfState, Tables.setReleasedIfState, hm, hrow, hcurrent,
      isSome_of_map_column hreleased, ne_eq, Option.some.injEq]
    by_cases hdone : row.releasedAt.isSome = true
    · rw [if_pos hdone, if_pos hdone]
      exact ⟨rfl, h⟩
    rw [if_neg hdone, if_neg hdone]
    by_cases hmoved : current = expected
    · rw [if_neg (not_not.mpr hmoved), if_neg (not_not.mpr hmoved)]
      refine ⟨rfl, h.put ?_ hkey⟩
      rw [view_eq_iff]
      exact ⟨hid, hauth, hnetwork, hupdated, hpaused, hreason, by simp, hrest⟩
    · rw [if_pos hmoved, if_pos hmoved]
      exact ⟨rfl, h⟩

theorem same_clearReleasedIfState (h : Agrees exact files tables) {states : States}
    {accountId : String} (hstored : states accountId ≠ none) (expected : Commitment) :
    Same exact (files.clearReleasedIfState states accountId expected)
      (tables.clearReleasedIfState states accountId expected) := by
  obtain ⟨hm, hrow⟩ | ⟨m, row, hm, hrow, hview, hkey⟩ := h.row_cases accountId
  · simp only [Files.clearReleasedIfState, Tables.clearReleasedIfState, hm, hrow]
    exact ⟨rfl, h⟩
  · obtain ⟨hid, hauth, hnetwork, hupdated, hpaused, hreason, hreleased, hrest⟩ :=
      view_eq_iff.mp hview
    obtain ⟨current, hcurrent⟩ := Option.ne_none_iff_exists'.mp hstored
    have hnone : m.releasedAt.isNone = row.releasedAt.isNone := by
      rw [← Option.not_isSome, ← Option.not_isSome, isSome_of_map_column hreleased]
    simp only [Files.clearReleasedIfState, Tables.clearReleasedIfState, hm, hrow, hcurrent, hnone,
      ne_eq, Option.some.injEq]
    by_cases hdone : row.releasedAt.isNone = true
    · rw [if_pos hdone, if_pos hdone]
      exact ⟨rfl, h⟩
    rw [if_neg hdone, if_neg hdone]
    by_cases hmoved : current = expected
    · rw [if_neg (not_not.mpr hmoved), if_neg (not_not.mpr hmoved)]
      refine ⟨rfl, h.put ?_ hkey⟩
      rw [view_eq_iff]
      exact ⟨hid, hauth, hnetwork, hupdated, hpaused, hreason, rfl, hrest⟩
    · rw [if_pos hmoved, if_pos hmoved]
      exact ⟨rfl, h⟩

/-- Keys of signers without a separator name one floor each. -/
theorem authStateKey_inj {accountId accountId' signer signer' : String}
    (h : ':' ∉ signer.toList) (h' : ':' ∉ signer'.toList)
    (heq : Filesystem.authStateKey accountId signer = Filesystem.authStateKey accountId' signer') :
    accountId = accountId' ∧ signer = signer' := by
  have hsigner : signer = signer' := by
    have hlast : Filesystem.afterLastSeparator (Filesystem.authStateKey accountId signer).toList =
        some signer.toList := Filesystem.afterLastSeparator_authStateKey h
    rw [heq, Filesystem.afterLastSeparator_authStateKey h', Option.some.injEq] at hlast
    exact String.toList_injective hlast.symm
  subst hsigner
  refine ⟨?_, rfl⟩
  have hlist := congrArg String.toList heq
  simp only [Filesystem.authStateKey, String.toList_append] at hlist
  exact String.toList_injective (List.append_cancel_right (List.append_cancel_right hlist))

/-- Both compare with the signer's floor and the account's. -/
theorem cas_eq {accountId signer : String} (ts : Int64) {authState : Floors String}
    {rows : Floors Postgres.Cell}
    (hsigner : authState (Filesystem.authStateKey accountId signer) = rows (accountId, signer))
    (hlegacy : authState (Filesystem.authStateKey accountId legacyAccountAuthFloor) =
      rows (accountId, legacyAccountAuthFloor)) :
    (Filesystem.updateLastAuthTimestampCas accountId signer ts authState = (false, authState) ∧
      Postgres.updateLastAuthTimestampCas accountId signer ts rows = (false, rows)) ∨
    (Filesystem.updateLastAuthTimestampCas accountId signer ts authState =
        (true, Function.update authState (Filesystem.authStateKey accountId signer) (some ts)) ∧
      Postgres.updateLastAuthTimestampCas accountId signer ts rows =
        (true, Function.update rows (accountId, signer) (some ts))) := by
  simp only [Filesystem.updateLastAuthTimestampCas, Postgres.updateLastAuthTimestampCas, hsigner,
    hlegacy]
  cases hown : rows (accountId, signer) with
  | none =>
    cases hold : rows (accountId, legacyAccountAuthFloor) with
    | none => simp [Filesystem.maxFloor]
    | some legacy =>
      by_cases hle : ts ≤ legacy
      · simp [Filesystem.maxFloor, hle]
      · simp [Filesystem.maxFloor, hle]
  | some own =>
    cases hold : rows (accountId, legacyAccountAuthFloor) with
    | none =>
      by_cases hle : ts ≤ own
      · simp [Filesystem.maxFloor, hle, Int64.not_lt.mpr hle]
      · simp [Filesystem.maxFloor, hle, Int64.not_le.mp hle]
    | some legacy =>
      by_cases hlegacyLe : ts ≤ legacy
      · have hmax : ts ≤ if own ≤ legacy then legacy else own := by
          split
          · exact hlegacyLe
          · next hlt => exact Int64.le_trans hlegacyLe (Int64.le_of_lt (Int64.not_le.mp hlt))
        simp [Filesystem.maxFloor, hlegacyLe, hmax]
      · by_cases hle : ts ≤ own
        · have hmax : ts ≤ if own ≤ legacy then legacy else own := by
            split
            · next hown => exact Int64.le_trans hle hown
            · exact hle
          simp [Filesystem.maxFloor, hlegacyLe, hmax, Int64.not_lt.mpr hle]
        · have hmax : ¬ts ≤ if own ≤ legacy then legacy else own := by
            split
            · exact hlegacyLe
            · exact hle
          simp [Filesystem.maxFloor, hlegacyLe, hmax, Int64.not_le.mp hle]

theorem same_updateLastAuthTimestampCas (h : Agrees exact files tables) (accountId : String)
    {signer : String} (hsigner : ':' ∉ signer.toList) (ts : Int64) :
    Same exact (files.updateLastAuthTimestampCas accountId signer ts)
      (tables.updateLastAuthTimestampCas accountId signer ts) := by
  have hlegacy : ':' ∉ legacyAccountAuthFloor.toList := by decide
  have hcas := cas_eq ts (h.floors accountId signer hsigner) (h.floors accountId _ hlegacy)
  obtain ⟨hm, hrow⟩ | ⟨m, row, hm, hrow, -, -⟩ := h.row_cases accountId
  · -- without metadata there is no floor, so a row would be written
    have hnone : ∀ signer, tables.authState (accountId, signer) = none := fun signer =>
      by_contra fun hfloor => h.referenced accountId signer hfloor hrow
    have hwritten : Postgres.updateLastAuthTimestampCas accountId signer ts tables.authState =
        (true, Function.update tables.authState (accountId, signer) (some ts)) := by
      simp [Postgres.updateLastAuthTimestampCas, hnone]
    simp only [Files.updateLastAuthTimestampCas, Tables.updateLastAuthTimestampCas, hm, hrow,
      hwritten]
    exact ⟨rfl, h⟩
  · simp only [Files.updateLastAuthTimestampCas, Tables.updateLastAuthTimestampCas, hm, hrow,
      Option.isNone_some, Bool.and_false, Bool.false_eq_true, if_false]
    obtain ⟨hfile, htable⟩ | ⟨hfile, htable⟩ := hcas
    · rw [hfile, htable]
      exact ⟨rfl, h⟩
    · rw [hfile, htable]
      refine ⟨rfl, h.records, h.keyed, fun id signer' hsigner' => ?_, fun id signer' hfloor => ?_⟩
      · by_cases hcell : (id, signer') = (accountId, signer)
        · obtain ⟨rfl, rfl⟩ := Prod.mk.inj hcell
          simp
        · have hkey : Filesystem.authStateKey id signer' ≠ Filesystem.authStateKey accountId signer :=
            fun heq => hcell (Prod.mk.injEq .. ▸ authStateKey_inj hsigner' hsigner heq)
          simpa [Function.update_of_ne hcell, Function.update_of_ne hkey] using
            h.floors id signer' hsigner'
      · by_cases hcell : (id, signer') = (accountId, signer)
        · obtain ⟨rfl, rfl⟩ := Prod.mk.inj hcell
          simp [hrow]
        · simp only [Function.update_of_ne hcell] at hfloor
          exact h.referenced id signer' hfloor

/-- One operation. -/
theorem same_exec (h : Agrees exact files tables) {states : States} {op : Op}
    (hfits : op.Fits states) (hcarries : exact = true → op.Carries tables) :
    Same exact (Files.exec states op files) (Tables.exec states op tables) := by
  cases op with
  | create metadata => exact same_create h metadata
  | set metadata => exact ⟨rfl, h.set metadata hcarries⟩
  | updateAuth accountId newAuth now => exact same_updateAuth h accountId newAuth now
  | setPause accountId now reason => exact same_setPause h accountId now reason
  | clearPause accountId => exact same_clearPause h accountId
  | setReleasedIfState accountId now expected => exact same_setReleasedIfState h hfits now expected
  | clearReleasedIfState accountId expected => exact same_clearReleasedIfState h hfits expected
  | updateLastAuthTimestampCas accountId signer ts =>
    exact same_updateLastAuthTimestampCas h accountId hfits ts

end Steps

namespace Demo

def entry (createdAt : Instant) (hasPendingCandidate : Bool) : AccountMetadata where
  accountId := "0xacc"
  auth := .midenFalconRpo ["0x01"]
  networkConfig := .miden .testnet
  createdAt := createdAt
  updatedAt := createdAt
  hasPendingCandidate := hasPendingCandidate
  pausedAt := none
  pausedReason := none
  releasedAt := none

def states : States := fun accountId => if accountId = "0xacc" then some "s" else none

/-- A paused account is written from an entry read before the pause. -/
def stale : List (States × Op) :=
  [.create (entry 1500 true), .setPause "0xacc" 2500 "fraud", .set (entry 1500 true),
   .updateLastAuthTimestampCas "0xacc" "0x01" 7, .updateLastAuthTimestampCas "0xacc" "0x01" 7,
   .setReleasedIfState "0xacc" 3500 "s", .setPause "0xacc" 4500 "again"].map (states, ·)

end Demo

end Guardian.MetadataStores
