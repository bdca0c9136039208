import Guardian.DeltaObject
import Guardian.Lib.Base64
import Guardian.Lib.Binary

/- The cursors of the paged feeds (`dashboard/cursor.rs`).

   A cursor says where a page ended. What the client holds is its binary form with an
   HMAC tag behind it, in base64. A server with the same secret reads back the cursor it
   wrote, on the feed it wrote it for and on no other; and it accepts nothing but a payload
   with the tag of that payload behind it.

   HMAC-SHA256 and the text chrono writes an instant in are parameters. -/
namespace Guardian.Dashboard

open Binary

/-- The errors of a feed, with their texts. -/
inductive FeedError where
  | invalidCursor (message : String)
  | invalidLimit (message : String)
  | accountNotFound (accountId : String)
  | dataUnavailable (message : String)
  | storageError (message : String)
  | refused
  deriving DecidableEq, Repr

inductive CursorKind where
  | accountList
  | accountDeltas
  | accountProposals
  | globalDeltas
  | globalProposals
  | accountDeltaHistory
  deriving DecidableEq, Repr

namespace CursorKind

/-- The kind as `{:?}` writes it. -/
def debug : CursorKind → String
  | accountList => "AccountList"
  | accountDeltas => "AccountDeltas"
  | accountProposals => "AccountProposals"
  | globalDeltas => "GlobalDeltas"
  | globalProposals => "GlobalProposals"
  | accountDeltaHistory => "AccountDeltaHistory"

def index : CursorKind → BitVec 32
  | accountList => 0
  | accountDeltas => 1
  | accountProposals => 2
  | globalDeltas => 3
  | globalProposals => 4
  | accountDeltaHistory => 5

def ofIndex (i : BitVec 32) : Option CursorKind :=
  [accountList, accountDeltas, accountProposals, globalDeltas, globalProposals,
    accountDeltaHistory][i.toNat]?

theorem ofIndex_index (kind : CursorKind) : ofIndex kind.index = some kind := by
  cases kind <;> rfl

end CursorKind

/-- A decoded cursor. `last_nonce` is an `i64`: the 64 bits of a nonce. -/
structure Cursor (Instant : Type) where
  kind : CursorKind
  lastNonce : Option Nonce := none
  lastAccountId : Option Text := none
  lastUpdatedAt : Option Instant := none
  lastCommitment : Option Text := none

/-- What the cursors rest on: the tag of a payload, and the text of an instant. -/
structure Primitives (Instant : Type) where
  hmac : List UInt8 → List UInt8 → List UInt8
  length_hmac : ∀ secret payload, (hmac secret payload).length = 32
  writeInstant : Instant → Text
  readInstant : Text → Option Instant
  read_write : ∀ t, readInstant (writeInstant t) = some t

namespace Cursor

variable {Instant : Type}

/-! ## The cursor of each feed -/

def accountList (updatedAt : Instant) (accountId : Text) : Cursor Instant :=
  { kind := .accountList, lastAccountId := some accountId, lastUpdatedAt := some updatedAt }

def accountDeltas (lastNonce : Nonce) : Cursor Instant :=
  { kind := .accountDeltas, lastNonce := some lastNonce }

def accountProposals (lastNonce : Nonce) (lastCommitment : Text) : Cursor Instant :=
  { kind := .accountProposals, lastNonce := some lastNonce, lastCommitment := some lastCommitment }

def globalDeltas (lastStatusTimestamp : Instant) (lastAccountId : Text) (lastNonce : Nonce) :
    Cursor Instant :=
  { kind := .globalDeltas, lastNonce := some lastNonce, lastAccountId := some lastAccountId
    lastUpdatedAt := some lastStatusTimestamp }

def accountDeltaHistory (lastNonce : Nonce) (accountId : Text) : Cursor Instant :=
  { kind := .accountDeltaHistory, lastNonce := some lastNonce, lastAccountId := some accountId }

def globalProposals (lastStatusTimestamp : Instant) (lastAccountId : Text) (lastNonce : Nonce)
    (lastCommitment : Text) : Cursor Instant :=
  { kind := .globalProposals, lastNonce := some lastNonce, lastAccountId := some lastAccountId
    lastUpdatedAt := some lastStatusTimestamp, lastCommitment := some lastCommitment }

/-! ## The binary form -/

variable (prims : Primitives Instant)

/-- The variant's index in four bytes. -/
def kindCodec : Codec CursorKind := via (word 4) CursorKind.index CursorKind.ofIndex
  CursorKind.ofIndex_index

/-- The instant's text. -/
def instantCodec : Codec Instant := via text prims.writeInstant prims.readInstant prims.read_write

/-- The fields in the order they are declared in. -/
def codec : Codec (Cursor Instant) :=
  via (pair kindCodec (pair (option (word 8)) (pair (option text)
      (pair (option (instantCodec prims)) (option text)))))
    (fun c => (c.kind, c.lastNonce, c.lastAccountId, c.lastUpdatedAt, c.lastCommitment))
    (fun fields => some
      { kind := fields.1, lastNonce := fields.2.1, lastAccountId := fields.2.2.1
        lastUpdatedAt := fields.2.2.2.1, lastCommitment := fields.2.2.2.2 })
    (fun _ => rfl)

/-- `bincode::serialize`. -/
def serialize (cursor : Cursor Instant) : List UInt8 := (codec prims).encode cursor

/-- `bincode::deserialize`, which allows bytes after the value. -/
def deserialize (payload : List UInt8) : Option (Cursor Instant) :=
  ((codec prims).decode payload).map Prod.fst

theorem deserialize_serialize (cursor : Cursor Instant) :
    deserialize prims (serialize prims cursor) = some cursor := by
  have hread := (codec prims).decode_encode cursor []
  rw [List.append_nil] at hread
  unfold deserialize serialize
  rw [hread, Option.map_some]

theorem serialize_ne_nil (cursor : Cursor Instant) : serialize prims cursor ≠ [] :=
  List.cons_ne_nil _ _

/-! ## The signed form -/

/-- `HMAC_TAG_LEN`. -/
def hmacTagLen : Nat := 32

/-- A payload with its tag behind it, as the client sees it. -/
def sealPayload (secret payload : List UInt8) : String :=
  Base64.encode (payload ++ prims.hmac secret payload)

/-- `cursor::encode`. -/
def encode (cursor : Cursor Instant) (secret : List UInt8) : String :=
  sealPayload prims secret (serialize prims cursor)

def kindMismatch (kind expectedKind : CursorKind) : FeedError :=
  .invalidCursor ("cursor kind " ++ kind.debug ++ " does not match expected " ++ expectedKind.debug)

/-- `cursor::decode`. -/
def decode (encoded : String) (secret : List UInt8) (expectedKind : CursorKind) :
    Except FeedError (Cursor Instant) :=
  match Base64.decode encoded with
  | none => .error (.invalidCursor "malformed cursor encoding")
  | some combined =>
    if combined.length ≤ hmacTagLen then .error (.invalidCursor "cursor payload too short")
    else
      let splitAt := combined.length - hmacTagLen
      let payload := combined.take splitAt
      let tag := combined.drop splitAt
      if tag ≠ prims.hmac secret payload then
        .error (.invalidCursor "cursor signature mismatch")
      else
        match deserialize prims payload with
        | none => .error (.invalidCursor "corrupt cursor payload")
        | some cursor =>
          if cursor.kind ≠ expectedKind then .error (kindMismatch cursor.kind expectedKind)
          else .ok cursor

variable {prims}

/-- A sealed payload is read, whatever was sealed. -/
theorem decode_sealPayload {secret payload : List UInt8} (hpayload : payload ≠ [])
    (expectedKind : CursorKind) :
    decode prims (sealPayload prims secret payload) secret expectedKind =
      match deserialize prims payload with
      | none => .error (.invalidCursor "corrupt cursor payload")
      | some cursor =>
        if cursor.kind ≠ expectedKind then .error (kindMismatch cursor.kind expectedKind)
        else .ok cursor := by
  have hpos : 0 < payload.length := List.length_pos_iff.mpr hpayload
  have htag := prims.length_hmac secret payload
  have hlen : ¬(payload ++ prims.hmac secret payload).length ≤ hmacTagLen := by
    rw [List.length_append, htag]
    unfold hmacTagLen
    omega
  have hsplit : (payload ++ prims.hmac secret payload).length - hmacTagLen = payload.length := by
    rw [List.length_append, htag]
    unfold hmacTagLen
    omega
  unfold decode sealPayload
  rw [Base64.decode_encode]
  simp only [if_neg hlen, hsplit, List.take_left, List.drop_left]
  rw [if_neg (fun h => h rfl)]

/-- The cursor written is the cursor read, on the feed it was written for; another feed
    refuses it. -/
theorem decode_encode (cursor : Cursor Instant) (secret : List UInt8)
    (expectedKind : CursorKind) :
    decode prims (encode prims cursor secret) secret expectedKind =
      if cursor.kind = expectedKind then .ok cursor
      else .error (kindMismatch cursor.kind expectedKind) := by
  unfold encode
  rw [decode_sealPayload (serialize_ne_nil prims cursor), deserialize_serialize]
  by_cases hkind : cursor.kind = expectedKind
  · simp only [hkind, ne_eq, not_true_eq_false, if_false, if_true]
  · simp only [hkind, ne_eq, not_false_eq_true, if_true, if_false]

/-- What is accepted was sealed. -/
theorem sealed_of_decode {text : String} {secret : List UInt8} {expectedKind : CursorKind}
    {cursor : Cursor Instant} (h : decode prims text secret expectedKind = .ok cursor) :
    cursor.kind = expectedKind ∧ ∃ payload, payload ≠ [] ∧
      deserialize prims payload = some cursor ∧ text = sealPayload prims secret payload := by
  unfold decode at h
  cases hbase : Base64.decode text with
  | none =>
    rw [hbase] at h
    cases h
  | some combined =>
    rw [hbase] at h
    by_cases hshort : combined.length ≤ hmacTagLen
    · simp only [if_pos hshort] at h
      cases h
    simp only [if_neg hshort] at h
    split at h
    · cases h
    next htag =>
    split at h
    · cases h
    next read hread =>
    split at h
    · cases h
    next hkind =>
    obtain rfl := Except.ok.inj h
    refine ⟨not_not.mp hkind, combined.take (combined.length - hmacTagLen), ?_, hread, ?_⟩
    · rw [← List.length_pos_iff, List.length_take]
      omega
    · unfold sealPayload
      rw [← not_not.mp htag, List.take_append_drop, Base64.encode_of_decode hbase]

/-- A server reads back every cursor it wrote, on the feed it wrote it for and on no other,
    and accepts exactly the sealed payloads of that kind. -/
theorem cursor_accepted_iff_sealed (prims : Primitives Instant) (secret : List UInt8)
    (expectedKind : CursorKind) :
    (∀ cursor : Cursor Instant, decode prims (encode prims cursor secret) secret expectedKind =
      if cursor.kind = expectedKind then .ok cursor
      else .error (kindMismatch cursor.kind expectedKind)) ∧
    ∀ text (cursor : Cursor Instant), decode prims text secret expectedKind = .ok cursor ↔
      cursor.kind = expectedKind ∧ ∃ payload, payload ≠ [] ∧
        deserialize prims payload = some cursor ∧ text = sealPayload prims secret payload := by
  refine ⟨fun cursor => decode_encode cursor secret expectedKind, ?_⟩
  intro text cursor
  refine ⟨sealed_of_decode, ?_⟩
  rintro ⟨rfl, payload, hpayload, hread, rfl⟩
  rw [decode_sealPayload hpayload, hread]
  simp only [ne_eq, not_true_eq_false, if_false]

end Cursor

end Guardian.Dashboard
