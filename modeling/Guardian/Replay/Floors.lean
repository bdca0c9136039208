import Mathlib.Logic.Function.Basic

/- Replay floors (`metadata/postgres.rs`, `metadata/filesystem.rs`, `session.rs`):
   the last accepted timestamp of each signer of each account, and the two
   statements that own them. `update_last_auth_timestamp_cas` raises a floor or
   refuses; `purge_session_floors` deletes floors of delegated signers.

   The backends differ in how a floor is addressed (a row of an account and a
   signer, or one string) and in how a session floor is told from a wallet's. A
   `FloorStore` is a backend with what its two statements guarantee: a floor is
   raised to a timestamp above it, and only a session floor below the cutoff
   goes away. -/
namespace Guardian.Replay

/-! ## Keys -/

/-- `LEGACY_ACCOUNT_AUTH_FLOOR`: the account-level floor a migration left. -/
def legacyAccountAuthFloor : String := "__legacy_account_floor__"

/-- `SESSION_FLOOR_PREFIX`. -/
def sessionFloorPrefix : String := "session-"

def hexDigits : List Char := "0123456789abcdef".toList

/-- `hex::encode`. -/
def hexEncode (bytes : List UInt8) : String :=
  String.ofList (bytes.flatMap fun b =>
    [hexDigits.getD (b.toNat / 16) '0', hexDigits.getD (b.toNat % 16) '0'])

/-- The commitment a wallet is identified by, from the bytes of its key's. -/
def signerCommitment (bytes : List UInt8) : String := "0x" ++ hexEncode bytes

/-- `replay_floor_key`, from the digest of the session's public key. -/
def replayFloorKey (digest : List UInt8) : String := sessionFloorPrefix ++ hexEncode digest

theorem mem_hexDigits_getD (n : Nat) : hexDigits.getD n '0' ∈ hexDigits := by
  rw [List.getD_eq_getElem?_getD]
  cases h : hexDigits[n]? with
  | none => decide
  | some c => exact List.mem_of_getElem? h

theorem hexEncode_digits {bytes : List UInt8} {c : Char} (h : c ∈ (hexEncode bytes).toList) :
    c ∈ hexDigits := by
  simp only [hexEncode, String.toList_ofList, List.mem_flatMap, List.mem_cons,
    List.not_mem_nil, or_false] at h
  obtain ⟨b, _, rfl | rfl⟩ := h
  · exact mem_hexDigits_getD _
  · exact mem_hexDigits_getD _

/-- A commitment is written without the separator of the filesystem keys. -/
theorem colon_notMem_signerCommitment (bytes : List UInt8) :
    ':' ∉ (signerCommitment bytes).toList := by
  intro h
  rw [signerCommitment, String.toList_append, List.mem_append] at h
  obtain h | h := h
  · exact absurd h (by decide)
  · exact absurd (hexEncode_digits h) (by decide)

/-- A commitment is never written like a session floor. -/
theorem signerCommitment_not_session (bytes : List UInt8) :
    sessionFloorPrefix.toList.isPrefixOf (signerCommitment bytes).toList = false := by
  rw [signerCommitment, String.toList_append]
  rfl

/-! ## The two backends -/

/-- The stored floors, by where they are stored. -/
abbrev Floors (Cell : Type) := Cell → Option Int64

namespace Postgres

/-- The key of a row of `account_auth_state`. -/
abbrev Cell := String × String

/-- `signer_commitment LIKE 'session-%'`. -/
def isSessionFloor (cell : Cell) : Bool :=
  sessionFloorPrefix.toList.isPrefixOf cell.2.toList

/-- `INSERT .. SELECT .. WHERE NOT EXISTS (legacy floor) ON CONFLICT DO UPDATE
.. WHERE`: whether a row was written, and the rows. -/
def updateLastAuthTimestampCas (account signer : String) (newTimestamp : Int64)
    (floors : Floors Cell) : Bool × Floors Cell :=
  -- with the migrated floor at or above the timestamp, nothing is selected
  if (floors (account, legacyAccountAuthFloor)).any (newTimestamp ≤ ·) then (false, floors)
  else
    match floors (account, signer) with
    | none => (true, Function.update floors (account, signer) (some newTimestamp))
    | some stored =>
      if stored < newTimestamp then
        (true, Function.update floors (account, signer) (some newTimestamp))
      else (false, floors)

/-- `DELETE .. WHERE signer_commitment LIKE .. AND last_auth_timestamp < ..`. -/
def purgeSessionFloors (beforeMs : Int64) (floors : Floors Cell) : Floors Cell :=
  fun cell => if isSessionFloor cell && (floors cell).any (· < beforeMs) then none else floors cell

end Postgres

namespace Filesystem

/-- `auth_state_key`. -/
def authStateKey (account signer : String) : String := account ++ ":" ++ signer

/-- What follows the last separator (`rsplit_once`). -/
def afterLastSeparator (key : List Char) : Option (List Char) :=
  if ':' ∈ key then some (key.reverse.takeWhile (· != ':')).reverse else none

def isAsciiHexdigit (c : Char) : Bool :=
  c.isDigit || ('a' ≤ c && c ≤ 'f') || ('A' ≤ c && c ≤ 'F')

/-- `is_replay_floor_key`. -/
def isReplayFloorKey (key : List Char) : Bool :=
  sessionFloorPrefix.toList.isPrefixOf key &&
    (key.drop sessionFloorPrefix.length).length == 64 &&
    (key.drop sessionFloorPrefix.length).all isAsciiHexdigit

/-- Whether the key ends in a delegated signer's floor key. -/
def isSessionFloor (key : String) : Bool :=
  (afterLastSeparator key.toList).any isReplayFloorKey

/-- The larger of the floors that are there. -/
def maxFloor : Option Int64 → Option Int64 → Option Int64
  | some a, some b => some (if a ≤ b then b else a)
  | some a, none => some a
  | none, b => b

def updateLastAuthTimestampCas (account signer : String) (newTimestamp : Int64)
    (floors : Floors String) : Bool × Floors String :=
  let key := authStateKey account signer
  let legacyKey := authStateKey account legacyAccountAuthFloor
  if (maxFloor (floors key) (floors legacyKey)).any (newTimestamp ≤ ·) then (false, floors)
  else (true, Function.update floors key (some newTimestamp))

def purgeSessionFloors (beforeMs : Int64) (floors : Floors String) : Floors String :=
  fun key => if (floors key).any (· < beforeMs) && isSessionFloor key then none else floors key

/-- The last part of a key is the signer's, if the signer has no separator. -/
theorem afterLastSeparator_authStateKey {account signer : String}
    (h : ':' ∉ signer.toList) :
    afterLastSeparator (authStateKey account signer).toList = some signer.toList := by
  have hkey : (authStateKey account signer).toList = account.toList ++ ':' :: signer.toList := by
    simp [authStateKey]
  have hall : ∀ c ∈ signer.toList.reverse, (c != ':') = true := by
    intro c hc
    have hne : c ≠ ':' := fun heq => h (heq ▸ List.mem_reverse.mp hc)
    simpa using hne
  rw [hkey, afterLastSeparator, if_pos (by simp)]
  simp [List.takeWhile_append_of_pos hall]

end Filesystem

/-! ## What both guarantee -/

/-- A backend's floors and its two statements, with what each can do. -/
structure FloorStore where
  Cell : Type
  cell : String → String → Cell
  isSessionFloor : Cell → Bool
  cas : String → String → Int64 → Floors Cell → Bool × Floors Cell
  purge : Int64 → Floors Cell → Floors Cell
  /-- The statement refuses, or raises this floor and no other. -/
  cas_cases : ∀ account signer newTimestamp floors,
    cas account signer newTimestamp floors = (false, floors) ∨
    ∃ floors', cas account signer newTimestamp floors = (true, floors') ∧
      (∀ floor, floors (cell account signer) = some floor → floor < newTimestamp) ∧
      floors' (cell account signer) = some newTimestamp ∧
      ∀ c, c ≠ cell account signer → floors' c = floors c
  /-- A floor is left alone, or is a session's below the cutoff. -/
  purge_cases : ∀ beforeMs floors c, purge beforeMs floors c = floors c ∨
    (purge beforeMs floors c = none ∧ isSessionFloor c = true ∧
      ∃ floor, floors c = some floor ∧ floor < beforeMs)
  wallet_not_session : ∀ account bytes,
    isSessionFloor (cell account (signerCommitment bytes)) = false

theorem Postgres.cas_cases (account signer : String) (newTimestamp : Int64)
    (floors : Floors Postgres.Cell) :
    Postgres.updateLastAuthTimestampCas account signer newTimestamp floors = (false, floors) ∨
    ∃ floors', Postgres.updateLastAuthTimestampCas account signer newTimestamp floors =
        (true, floors') ∧
      (∀ floor, floors (account, signer) = some floor → floor < newTimestamp) ∧
      floors' (account, signer) = some newTimestamp ∧
      ∀ c, c ≠ (account, signer) → floors' c = floors c := by
  unfold Postgres.updateLastAuthTimestampCas
  split
  · exact .inl rfl
  · split
    · next hnone =>
      refine .inr ⟨_, rfl, ?_, Function.update_self .., fun c hc => Function.update_of_ne hc ..⟩
      intro floor hfloor
      simp [hnone] at hfloor
    · next stored hstored =>
      split
      · next hlt =>
        refine .inr ⟨_, rfl, ?_, Function.update_self .., fun c hc => Function.update_of_ne hc ..⟩
        intro floor hfloor
        simp only [hstored, Option.some.injEq] at hfloor
        rw [← hfloor]
        exact hlt
      · exact .inl rfl

theorem Filesystem.cas_cases (account signer : String) (newTimestamp : Int64)
    (floors : Floors String) :
    Filesystem.updateLastAuthTimestampCas account signer newTimestamp floors = (false, floors) ∨
    ∃ floors', Filesystem.updateLastAuthTimestampCas account signer newTimestamp floors =
        (true, floors') ∧
      (∀ floor, floors (Filesystem.authStateKey account signer) = some floor →
        floor < newTimestamp) ∧
      floors' (Filesystem.authStateKey account signer) = some newTimestamp ∧
      ∀ c, c ≠ Filesystem.authStateKey account signer → floors' c = floors c := by
  unfold Filesystem.updateLastAuthTimestampCas
  dsimp only
  split
  · exact .inl rfl
  · next hno =>
    refine .inr ⟨_, rfl, ?_, Function.update_self .., fun c hc => Function.update_of_ne hc ..⟩
    intro floor hfloor
    rw [hfloor] at hno
    -- the larger of the two floors is below the timestamp, so this one is
    rw [Int64.lt_iff_toInt_lt]
    by_contra hle
    apply hno
    cases floors (Filesystem.authStateKey account legacyAccountAuthFloor) with
    | none => simpa [Filesystem.maxFloor, Int64.le_iff_toInt_le] using hle
    | some legacy =>
      simp only [Filesystem.maxFloor, Option.any_some, Int64.le_iff_toInt_le, decide_eq_true_eq]
      split
      · omega
      · omega

def postgres : FloorStore where
  Cell := Postgres.Cell
  cell := fun account signer => (account, signer)
  isSessionFloor := Postgres.isSessionFloor
  cas := Postgres.updateLastAuthTimestampCas
  purge := Postgres.purgeSessionFloors
  cas_cases := Postgres.cas_cases
  purge_cases := by
    intro beforeMs floors c
    unfold Postgres.purgeSessionFloors
    split
    · next h =>
      simp only [Bool.and_eq_true, Option.any_eq_true, decide_eq_true_eq] at h
      exact .inr ⟨rfl, h.1, h.2⟩
    · exact .inl rfl
  wallet_not_session := fun _ bytes => signerCommitment_not_session bytes

def filesystem : FloorStore where
  Cell := String
  cell := Filesystem.authStateKey
  isSessionFloor := Filesystem.isSessionFloor
  cas := Filesystem.updateLastAuthTimestampCas
  purge := Filesystem.purgeSessionFloors
  cas_cases := Filesystem.cas_cases
  purge_cases := by
    intro beforeMs floors c
    unfold Filesystem.purgeSessionFloors
    split
    · next h =>
      simp only [Bool.and_eq_true, Option.any_eq_true, decide_eq_true_eq] at h
      exact .inr ⟨rfl, h.2, h.1⟩
    · exact .inl rfl
  wallet_not_session := by
    intro account bytes
    rw [Filesystem.isSessionFloor,
      Filesystem.afterLastSeparator_authStateKey (colon_notMem_signerCommitment bytes)]
    simp [Filesystem.isReplayFloorKey, signerCommitment_not_session]

end Guardian.Replay
