import Guardian.Signing.RequestPayload

/- The messages whose signatures the server verifies, and the word each is
   signed as: requests (auth_request_message.rs), lookups
   (lookup_auth_message.rs), session grants, logouts and revoke-all requests
   (session_grant.rs).

   The hash is a parameter. Beside the word, `hashed` lists the element
   sequences that are hashed on the way to it: what we need of the hash is that
   it does not collide on these. -/
namespace Guardian.Signing
open Json Bytes

/-! ## Field elements -/

/-- `Felt::ORDER`. -/
def order : Nat := 2 ^ 64 - 2 ^ 32 + 1

abbrev Felt := Fin order

def feltFromU64Reduced (value : Nat) : Felt := ⟨value % order, Nat.mod_lt _ (by decide)⟩

structure Word where
  w0 : Felt
  w1 : Felt
  w2 : Felt
  w3 : Felt
  deriving DecidableEq

def Word.asElements (word : Word) : List Felt := [word.w0, word.w1, word.w2, word.w3]

def Word.zero : Word := ⟨⟨0, by decide⟩, ⟨0, by decide⟩, ⟨0, by decide⟩, ⟨0, by decide⟩⟩

/-- Eight bytes to an element, the last chunk padded with zeros. -/
def packedElements (bytes : List UInt8) : List Felt :=
  (chunks 8 bytes).map fun chunk => feltFromU64Reduced (littleEndian (pad 8 chunk))

theorem packedElements_val (bytes : List UInt8) :
    (packedElements bytes).map Fin.val = pack order bytes := by
  rw [packedElements, pack, List.map_map]
  rfl

/-- `felts_from_bytes`: the length, then four bytes to an element. -/
def feltsFromBytes (bytes : List UInt8) : List Felt :=
  feltFromU64Reduced (bytes.length % 2 ^ 32) ::
    (chunks 4 bytes).map fun chunk => feltFromU64Reduced (littleEndian (pad 4 chunk))

/-! ## Messages -/

structure AccountId where
  prefixFelt : Felt
  suffix : Felt
  deriving DecidableEq

/-- A SEC1-compressed P-256 key. -/
abbrev SessionPublicKey := { bytes : List UInt8 // bytes.length = 33 }

/-- `format_utc_seconds`; `dateTime` is chrono's text of a Unix time in its range. -/
def formatUtcSeconds (dateTime : Nat → Option String) (unixSeconds : Nat) : Option String :=
  if unixSeconds < 2 ^ 63 then dateTime unixSeconds else none

/-- A grant as `SessionGrant::new` accepts it. -/
structure SessionGrant (dateTime : Nat → Option String) where
  signerCommitment : Word
  sessionPublicKey : SessionPublicKey
  origin : String
  issuedAt : UInt64
  expiresAt : UInt64
  guardianCommitment : Word
  network : String
  origin_short : (utf8 origin.toList).length ≤ 256
  issued_before : issuedAt.toNat < expiresAt.toNat
  expires_in_range : (formatUtcSeconds dateTime expiresAt.toNat).isSome

def SessionGrant.expires {dateTime : Nat → Option String} (grant : SessionGrant dateTime) : String :=
  (formatUtcSeconds dateTime grant.expiresAt.toNat).get grant.expires_in_range

def sessionGrantScope : String :=
  "Every account this signer cosigns on this Guardian, now or later, until this grant expires"

/-- A signed message; timestamps are `i64`. -/
inductive Message (N : Type) (dateTime : Nat → Option String) where
  | request (accountId : AccountId) (timestamp : Int64) (body : Value N)
  | operation (accountId : AccountId) (timestamp : Int64) (op : SignedOperation) (body : Value N)
  | lookup (timestampMs : Int64) (keyCommitment : Word)
  | grant (g : SessionGrant dateTime)
  | logout (sessionPublicKey : SessionPublicKey) (timestampMs : Int64)
  | revokeAll (signerCommitment : Word) (timestampMs : Int64)

/-! ## The word that is signed -/

/-- `felt_from_u64_reduced(timestamp as u64)`. -/
def timestampFelt (timestamp : Int64) : Felt := feltFromU64Reduced timestamp.toUInt64.toNat

def lookupTagBytes : List UInt8 := utf8 "guardian.lookup.v1".toList
def sessionTagBytes : List UInt8 := utf8 "guardian.session.v1".toList
def logoutTagBytes : List UInt8 := utf8 "guardian.session.logout.v1".toList
def revokeAllTagBytes : List UInt8 := utf8 "guardian.session.revoke_all.v1".toList

section Words
variable (hash : List Felt → Word)

/-- `AuthRequestPayload::from_bytes`. -/
def fromBytes (bytes : List UInt8) : Word :=
  if bytes = [] then Word.zero else hash (packedElements bytes)

def domainTagWord (bytes : List UInt8) : Word := hash (packedElements bytes)

def hashBytes (bytes : List UInt8) : Word := hash (feltsFromBytes bytes)

variable {N : Type} (F : NumberText N) {dateTime : Nat → Option String}

/-- The elements of an `AuthRequestMessage`. -/
def requestElements (accountId : AccountId) (timestamp : Int64) (payload : Word) : List Felt :=
  [accountId.prefixFelt, accountId.suffix, timestampFelt timestamp] ++ payload.asElements

def grantElements (grant : SessionGrant dateTime) : List Felt :=
  (domainTagWord hash sessionTagBytes).asElements ++ (grant.signerCommitment.asElements ++
    (feltsFromBytes grant.sessionPublicKey.1 ++
    ((hashBytes hash (utf8 grant.origin.toList)).asElements ++
    ([feltFromU64Reduced grant.issuedAt.toNat, feltFromU64Reduced grant.expiresAt.toNat] ++
    ((hashBytes hash (utf8 grant.expires.toList)).asElements ++
    ((hashBytes hash (utf8 sessionGrantScope.toList)).asElements ++
    (grant.guardianCommitment.asElements ++
      (hashBytes hash (utf8 grant.network.toList)).asElements)))))))

/-- The elements whose hash is signed. -/
def Message.elements : Message N dateTime → List Felt
  | .request accountId timestamp body =>
    requestElements accountId timestamp (fromBytes hash (signedBytes F none body))
  | .operation accountId timestamp op body =>
    requestElements accountId timestamp (fromBytes hash (signedBytes F (some op) body))
  | .lookup timestampMs keyCommitment =>
    (domainTagWord hash lookupTagBytes).asElements ++
      (timestampFelt timestampMs :: keyCommitment.asElements)
  | .grant g => grantElements hash g
  | .logout sessionPublicKey timestampMs =>
    (domainTagWord hash logoutTagBytes).asElements ++
      (timestampFelt timestampMs :: feltsFromBytes sessionPublicKey.1)
  | .revokeAll signerCommitment timestampMs =>
    (domainTagWord hash revokeAllTagBytes).asElements ++
      (timestampFelt timestampMs :: signerCommitment.asElements)

/-- `to_word`. -/
def Message.toWord (message : Message N dateTime) : Word := hash (message.elements hash F)

/-- The sequences hashed into the elements. -/
def Message.parts : Message N dateTime → List (List Felt)
  | .request _ _ body => [packedElements (signedBytes F none body)]
  | .operation _ _ op body => [packedElements (signedBytes F (some op) body)]
  | .lookup _ _ => [packedElements lookupTagBytes]
  | .grant g => [packedElements sessionTagBytes, feltsFromBytes (utf8 g.origin.toList),
      feltsFromBytes (utf8 g.expires.toList), feltsFromBytes (utf8 sessionGrantScope.toList),
      feltsFromBytes (utf8 g.network.toList)]
  | .logout _ _ => [packedElements logoutTagBytes]
  | .revokeAll _ _ => [packedElements revokeAllTagBytes]

/-- Every sequence hashed on the way to the word. -/
def Message.hashed (message : Message N dateTime) : List (List Felt) :=
  message.elements hash F :: message.parts F

end Words

/-- The hash does not collide on these sequences. -/
def CollisionFree (hash : List Felt → Word) (sequences : List (List Felt)) : Prop :=
  ∀ s ∈ sequences, ∀ t ∈ sequences, hash s = hash t → s = t

/-- A hash to evaluate examples with: the length and a polynomial of the elements. -/
def polynomialHash (elements : List Felt) : Word :=
  ⟨feltFromU64Reduced elements.length,
    elements.foldl (fun acc e => feltFromU64Reduced (acc.val * 31 + e.val + 1)) Word.zero.w0,
    Word.zero.w0, Word.zero.w0⟩

section
variable {N : Type} {dateTime : Nat → Option String}

/-- The timestamp of a message is not negative; a grant's times are unsigned. -/
def Message.NonNegative : Message N dateTime → Prop
  | .request _ timestamp _ => 0 ≤ timestamp.toInt
  | .operation _ timestamp _ _ => 0 ≤ timestamp.toInt
  | .lookup timestampMs _ => 0 ≤ timestampMs.toInt
  | .grant _ => True
  | .logout _ timestampMs => 0 ≤ timestampMs.toInt
  | .revokeAll _ timestampMs => 0 ≤ timestampMs.toInt

/-- The same message: kind, tag and fields, and bodies up to the order of keys. -/
inductive Message.Same : Message N dateTime → Message N dateTime → Prop where
  | request (accountId : AccountId) (timestamp : Int64) {body body' : Value N} :
      Reordered body body' → Same (.request accountId timestamp body)
        (.request accountId timestamp body')
  | operation (accountId : AccountId) (timestamp : Int64) (op : SignedOperation)
      {body body' : Value N} : Reordered body body' →
      Same (.operation accountId timestamp op body) (.operation accountId timestamp op body')
  | lookup (timestampMs : Int64) (keyCommitment : Word) :
      Same (.lookup timestampMs keyCommitment) (.lookup timestampMs keyCommitment)
  | grant (g : SessionGrant dateTime) : Same (.grant g) (.grant g)
  | logout (sessionPublicKey : SessionPublicKey) (timestampMs : Int64) :
      Same (.logout sessionPublicKey timestampMs) (.logout sessionPublicKey timestampMs)
  | revokeAll (signerCommitment : Word) (timestampMs : Int64) :
      Same (.revokeAll signerCommitment timestampMs) (.revokeAll signerCommitment timestampMs)

end
end Guardian.Signing
