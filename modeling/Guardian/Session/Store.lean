import Guardian.Lib.History
import Guardian.Metadata.Stores
import Guardian.Multisig.Account

/- Account sessions (`session.rs`, `services/create_session.rs`,
   `services/revoke_session.rs`, `services/revoke_all_sessions.rs`) over the two
   session stores (`coordination/session_store.rs`,
   `coordination/postgres/session_store.rs`).

   A grant is stored under the digest of its session key, and stays there, revoked
   or not, until a sweep after its expiry. Registration inserts only where there is
   no row. The in-memory store judges expiry by the time its caller read; Postgres
   ignores that and uses its own clock. So a lookup that read its clock long ago
   judges by that time in memory, and by the time of its statement on Postgres.

   A replica's hashing, parsing and signature checks are its own computations; its
   clock, the cosigner index and the database's failures are the environment's.
   Subjects are objects of strings, and so is the filter of a revoke-all. -/
namespace Guardian.Session

open Interleaving MetadataStores

/-! ## Sessions -/

/-- The digest a session is stored under. -/
abbrev SessionKey := List UInt8

inductive SessionSubject where
  | operator (operatorId commitment : String)
  | evm (address : String)
  | miden (signerCommitment origin guardianCommitment network : String)
  deriving DecidableEq, Repr

/-- The serialized subject. -/
def SessionSubject.fields : SessionSubject → List (String × String)
  | .operator operatorId commitment =>
    [("realm", "operator"), ("operator_id", operatorId), ("commitment", commitment)]
  | .evm address => [("realm", "evm"), ("address", address)]
  | .miden signerCommitment origin guardianCommitment network =>
    [("realm", "miden"), ("signer_commitment", signerCommitment), ("origin", origin),
      ("guardian_commitment", guardianCommitment), ("network", network)]

structure StoredSession where
  subject : SessionSubject
  issuedAt : Instant
  expiresAt : Instant
  deriving DecidableEq, Repr

/-- `json_contains`, and Postgres's `@>`, of objects of strings. -/
def jsonContains (value filter : List (String × String)) : Bool :=
  filter.all fun entry => value.lookup entry.1 == some entry.2

/-- What a registered grant binds. -/
structure MidenSession where
  signerCommitment : String
  origin : String
  guardianCommitment : String
  network : String
  deriving DecidableEq, Repr

def MidenSession.subject (s : MidenSession) : SessionSubject :=
  .miden s.signerCommitment s.origin s.guardianCommitment s.network

/-- The filter of a revoke-all. -/
def signerFilter (signerCommitment : String) : List (String × String) :=
  [("realm", "miden"), ("signer_commitment", signerCommitment)]

/-! ## Calls -/

inductive SessionError where
  | invalidInput (message : String)
  | authenticationFailed (message : String)
  | authorizationFailed (message : String)
  | storageError (message : String)
  | sessionRevoked
  | sessionExpired
  | walletSignatureRequired
  deriving DecidableEq, Repr

inductive Op where
  | now
  | findByCosignerCommitment (commitment : String)
  | insertNew (key : SessionKey) (session : StoredSession)
  | get (key : SessionKey) (now : Instant)
  | inactiveReason (key : SessionKey)
  | revoke (key : SessionKey)
  | revokeBySubject (filter : List (String × String)) (issuedAtOrBefore now : Instant)
  | sweepExpired (now : Instant)

abbrev Res : Op → Type
  | .now => Instant
  | .findByCosignerCommitment _ => Except String Bool
  | .insertNew _ _ => Except SessionError Bool
  | .get _ _ => Except SessionError (Option StoredSession)
  | .inactiveReason _ => Except SessionError (Option Bool)
  | .revoke _ => Except SessionError (Option StoredSession)
  | .revokeBySubject _ _ _ => Except SessionError Unit
  | .sweepExpired _ => Except SessionError Unit

abbrev Handler := ExceptT SessionError (Prog Op Res)

namespace Handler

def call (o : Op) : Handler (Res o) := ExceptT.lift (Prog.op o)

/-- `map_err(..)?`. -/
def orFail {ε α : Type} (x : Except ε α) (wrap : ε → SessionError) : Handler α :=
  match x with
  | .ok a => pure a
  | .error e => throw (wrap e)

end Handler

open Handler

/-! ## `MidenSessions` -/

/-- Seconds from the Unix epoch to that of `Instant`. -/
def epochSeconds : Int := 946684800

/-- `DateTime::from_timestamp`, before its range is checked. -/
def ofUnixSeconds (seconds : Int) : Instant := (seconds - epochSeconds) * 10 ^ 9

/-- `DateTime::from_timestamp_millis`, before its range is checked. -/
def ofUnixMillis (millis : Int) : Instant := (millis - epochSeconds * 1000) * 10 ^ 6

/-- `seconds as i64`. -/
def asI64 (seconds : UInt64) : Int := (seconds.toBitVec).toInt

/-- What a replica computes by itself: the digest of a session key, the times
chrono represents, and the checks of texts and signatures. -/
structure Server where
  maxTtlSeconds : Nat
  network : String
  ackCommitment : SignatureScheme → String
  storeKey : List UInt8 → SessionKey
  representable : Instant → Bool

section Sessions
variable (server : Server)

/-- `to_time` of `register`. -/
def toTime (seconds : UInt64) : Except SessionError Instant :=
  if server.representable (ofUnixSeconds (asI64 seconds)) then .ok (ofUnixSeconds (asI64 seconds))
  else .error (.invalidInput "Invalid session time")

def register (sessionPublicKey : List UInt8) (session : MidenSession) (issuedAt expiresAt : UInt64)
    (now : Instant) : Handler Instant := do
  let expiresAt ← orFail (toTime server expiresAt) id
  let key := server.storeKey sessionPublicKey
  let issuedAt ← orFail (toTime server issuedAt) id
  let stored : StoredSession := ⟨session.subject, min issuedAt now, expiresAt⟩
  if ← orFail (← call (.insertNew key stored)) id then return expiresAt
  else
    match ← orFail (← call (.get key now)) id with
    | some existing =>
      if existing.subject = stored.subject ∧ existing.expiresAt = expiresAt then return expiresAt
      else throw (.authenticationFailed
        "Session key is already registered with a different grant")
    | none => throw (.authenticationFailed
        "Session key was revoked or has expired; start a session with a new key")

def find (sessionPublicKey : List UInt8) (now : Instant) : Handler MidenSession := do
  let key := server.storeKey sessionPublicKey
  match ← orFail (← call (.get key now)) id with
  | some session =>
    match session.subject with
    | .miden signerCommitment origin guardianCommitment network =>
      return ⟨signerCommitment, origin, guardianCommitment, network⟩
    | _ => throw (.authenticationFailed "Unknown session key")
  | none =>
    match ← orFail (← call (.inactiveReason key)) id with
    | some true => throw .sessionRevoked
    | some false => throw .sessionExpired
    | none => throw (.authenticationFailed "Unknown session key")

def revoke (sessionPublicKey : List UInt8) (now : Instant) : Handler (Option String) := do
  let key := server.storeKey sessionPublicKey
  match ← orFail (← call (.get key now)) id with
  | none => return none
  | some _ =>
    match ← orFail (← call (.revoke key)) id with
    | some ⟨.miden signerCommitment _ _ _, _, _⟩ => return some signerCommitment
    | _ => return none

def revokeAll (signerCommitment : String) (issuedAtOrBefore now : Instant) : Handler Unit := do
  orFail (← call (.revokeBySubject (signerFilter signerCommitment) issuedAtOrBefore now)) id

def sweepExpired (now : Instant) : Handler Unit := do
  orFail (← call (.sweepExpired now)) id

end Sessions

/-! ## Requests -/

/-- `MAX_TIMESTAMP_SKEW_SECS`. -/
def maxTimestampSkewSecs : Nat := 300

/-- The Unix second of a time (`timestamp().max(0)`). -/
def unixSeconds (now : Instant) : Nat := (now.fdiv (10 ^ 9) + epochSeconds).toNat

/-- The Unix millisecond of a time. -/
def unixMillis (now : Instant) : Int := now.fdiv (10 ^ 6) + epochSeconds * 1000

/-- `u64::abs_diff`. -/
def absDiff (a b : Nat) : Nat := (a - b) + (b - a)

structure CreateSessionParams where
  scheme : SignatureScheme
  signature : String
  signerCommitment : String
  sessionPublicKey : String
  origin : String
  issuedAt : UInt64
  expiresAt : UInt64
  guardianCommitment : String
  network : String

/-- The texts and signatures of requests, as a replica checks them. A verified
grant names its session key and its signer's commitment. -/
structure Verifier where
  checkWalletSignatureHex : String → Except SessionError Unit
  verifyGrant : CreateSessionParams → Except SessionError (List UInt8 × String)
  verifyDelegated : String → Except SessionError (List UInt8)
  verifyRevokeAll : String → Int → Except SessionError String
  parseWord : String → Except SessionError Unit

section Requests
variable (server : Server) (verifier : Verifier)

/-- The times of a grant. -/
def checkGrantTimes (params : CreateSessionParams) (now : Instant) : Except SessionError Unit :=
  let nowSecs := unixSeconds now
  let remaining := params.expiresAt.toNat - nowSecs
  if maxTimestampSkewSecs < absDiff params.issuedAt.toNat nowSecs then
    .error (.authenticationFailed "Session grant issued_at is more than 300s from server time")
  else if remaining ≤ maxTimestampSkewSecs then
    .error (.invalidInput "Session grant must expire more than 300s from now")
  else if server.maxTtlSeconds < remaining then
    .error (.invalidInput
      ("Session grant expires more than " ++ toString server.maxTtlSeconds ++ "s from now"))
  else .ok ()

def createSession (params : CreateSessionParams) : Handler (String × Instant) := do
  orFail (verifier.checkWalletSignatureHex params.signature) id
  if params.network ≠ server.network then
    throw (.invalidInput ("Session grant is for network '" ++ params.network ++ "', expected '" ++
      server.network ++ "'"))
  else if Multisig.eqIgnoreAsciiCase params.guardianCommitment
      (server.ackCommitment params.scheme) then
    let now ← call .now
    orFail (checkGrantTimes server params now) id
    let (sessionPublicKey, signerCommitment) ← orFail (verifier.verifyGrant params) id
    if Multisig.eqIgnoreAsciiCase signerCommitment params.signerCommitment then
      let cosigned ← orFail (← call (.findByCosignerCommitment
        (Multisig.toAsciiLowercase signerCommitment))) (fun e => .storageError
          ("Failed to look up signer: " ++ e))
      if cosigned then
        let expiresAt ← register server sessionPublicKey
          ⟨signerCommitment, params.origin, server.ackCommitment params.scheme, server.network⟩
          params.issuedAt params.expiresAt now
        return (signerCommitment, expiresAt)
      else throw (.authorizationFailed "Session grant signer is not a cosigner of any account")
    else throw (.authenticationFailed
      "Session grant signer commitment does not match the signing key")
  else throw (.invalidInput "Session grant is bound to a different Guardian key")

/-- `authenticate_delegated_signer`. -/
def authenticateDelegatedSigner (credentials : String) : Handler (List UInt8 × MidenSession) := do
  let sessionPublicKey ← orFail (verifier.verifyDelegated credentials) id
  let now ← call .now
  let session ← find server sessionPublicKey now
  return (sessionPublicKey, session)

/-- `validate_timestamp_skew`. -/
def validateTimestampSkew (timestampMs : Int) : Handler Unit := do
  let now ← call .now
  if 1000 * (maxTimestampSkewSecs : Int) < |unixMillis now - timestampMs| then
    throw (.authenticationFailed "Request timestamp outside allowed window")
  else return ()

def revokeSession (credentials : String) (timestamp : Int) : Handler Bool := do
  validateTimestampSkew timestamp
  let sessionPublicKey ← orFail (verifier.verifyDelegated credentials) id
  let now ← call .now
  let revoked ← revoke server sessionPublicKey now
  return revoked.isSome

structure RevokeAllSessionsParams where
  signerCommitment : String
  timestamp : Int
  /-- The credentials, and whether they are a delegated signer's. -/
  credentials : String
  isSession : Bool

def revokeAllSessions (params : RevokeAllSessionsParams) : Handler Unit := do
  orFail (verifier.parseWord params.signerCommitment) id
  validateTimestampSkew params.timestamp
  orFail (verifier.checkWalletSignatureHex params.credentials) id
  if params.isSession then
    let _ ← authenticateDelegatedSigner server verifier params.credentials
    throw .walletSignatureRequired
  else
    let verifiedCommitment ← orFail
      (verifier.verifyRevokeAll params.credentials params.timestamp) id
    if Multisig.eqIgnoreAsciiCase verifiedCommitment params.signerCommitment then
      if server.representable (ofUnixMillis params.timestamp) then
        let now ← call .now
        revokeAll verifiedCommitment (ofUnixMillis params.timestamp) now
      else throw (.invalidInput "invalid timestamp")
    else throw (.authenticationFailed "signature key does not match signer_commitment")

/-- The housekeeping of a replica. -/
def sweep : Handler Unit := do
  let now ← call .now
  sweepExpired now

end Requests

/-- A request to one of the replicas, or its sweep. -/
inductive Request where
  | create (replica : Nat) (params : CreateSessionParams)
  | authenticate (replica : Nat) (credentials : String)
  | logout (replica : Nat) (credentials : String) (timestamp : Int)
  | revokeAll (replica : Nat) (params : RevokeAllSessionsParams)
  | sweep

/-- The answer of a handler goes to its caller. -/
def answered {α : Type} (x : Handler α) : Prog Op Res Unit := do
  let _ ← x.run
  return ()

def handle (servers : Nat → Server × Verifier) : Request → Prog Op Res Unit
  | .create replica params => answered (createSession (servers replica).1 (servers replica).2 params)
  | .authenticate replica credentials =>
    answered (authenticateDelegatedSigner (servers replica).1 (servers replica).2 credentials)
  | .logout replica credentials timestamp =>
    answered (revokeSession (servers replica).1 (servers replica).2 credentials timestamp)
  | .revokeAll replica params =>
    answered (revokeAllSessions (servers replica).1 (servers replica).2 params)
  | .sweep => answered sweep

/-! ## The stores -/

inductive Backend where
  | inMemory
  | postgres
  deriving DecidableEq

structure Entry where
  session : StoredSession
  revoked : Bool
  deriving DecidableEq, Repr

/-- The rows of the realm. -/
abbrev Sessions := SessionKey → Option Entry

/-- A time as the store keeps it. -/
def Backend.keepTime : Backend → Instant → Instant
  | .inMemory, t => t
  | .postgres, t => column t

/-- A session as the store keeps it. -/
def Backend.keep (backend : Backend) (s : StoredSession) : StoredSession :=
  ⟨s.subject, backend.keepTime s.issuedAt, backend.keepTime s.expiresAt⟩

/-- The time a statement judges by: the caller's in memory, else the database's. -/
def Backend.clock : Backend → Instant → Instant → Instant
  | .inMemory, now, _ => now
  | .postgres, _, databaseNow => databaseNow

/-- `get`, at a time. -/
def live (w : Sessions) (key : SessionKey) (now : Instant) : Option StoredSession :=
  match w key with
  | some entry => if !entry.revoked && now < entry.session.expiresAt then some entry.session else none
  | none => none

/-- `insert_new`. -/
def inserted (backend : Backend) (w : Sessions) (key : SessionKey) (session : StoredSession) :
    Bool × Sessions :=
  match w key with
  | some _ => (false, w)
  | none => (true, Function.update w key (some ⟨backend.keep session, false⟩))

/-- `revoke`. -/
def revoked (w : Sessions) (key : SessionKey) : Option StoredSession × Sessions :=
  match w key with
  | some entry =>
    if entry.revoked then (none, w)
    else (some entry.session, Function.update w key (some { entry with revoked := true }))
  | none => (none, w)

/-- Whether a revoke-all, made at a time, ends a session. -/
def meets (backend : Backend) (filter : List (String × String)) (issuedAtOrBefore now : Instant)
    (entry : Entry) : Bool :=
  !entry.revoked && decide (now < entry.session.expiresAt) &&
    decide (entry.session.issuedAt ≤ backend.keepTime issuedAtOrBefore) &&
    jsonContains entry.session.subject.fields filter

/-- `revoke_by_subject`. -/
def revokedBySubject (backend : Backend) (w : Sessions) (filter : List (String × String))
    (issuedAtOrBefore now : Instant) : Sessions := fun key =>
  (w key).map fun entry =>
    if meets backend filter issuedAtOrBefore now entry then { entry with revoked := true }
    else entry

/-- Whether a sweep keeps a row: the in-memory store drops what `get` would not
return, Postgres what is strictly past its expiry. -/
def survives : Backend → Instant → Entry → Bool
  | .inMemory, now, entry => decide (now < entry.session.expiresAt)
  | .postgres, now, entry => decide (now ≤ entry.session.expiresAt)

/-- `sweep_expired`. -/
def sweptAt (backend : Backend) (w : Sessions) (now : Instant) : Sessions := fun key =>
  (w key).filter (survives backend now)

/-- What the environment decides about a call: the time it is made at, the cosigner
index, and on Postgres whether a statement failed before it ran (`failed`) or only
lost its answer (`lost`). -/
inductive Choice where
  | clock (now : Instant)
  | cosigned (answer : Except String Bool)
  | done (databaseNow : Instant)
  | lost (databaseNow : Instant)
  | failed

/-- How a statement ends. -/
def answer {α : Type} (backend : Backend) (result : Instant → α × Sessions) (w : Sessions) :
    Choice → Option (Except SessionError α × Sessions)
  | .done databaseNow => some (.ok (result databaseNow).1, (result databaseNow).2)
  | .lost databaseNow =>
    match backend with
    | .postgres => some (.error (.storageError "connection lost"), (result databaseNow).2)
    | .inMemory => none
  | .failed =>
    match backend with
    | .postgres => some (.error (.storageError "statement failed"), w)
    | .inMemory => none
  | _ => none

def exec (backend : Backend) (_pid : Nat) :
    (op : Op) → Choice → Sessions → Option (Res op × Sessions)
  | .now, .clock now, w => some (now, w)
  | .findByCosignerCommitment _, .cosigned answer, w => some (answer, w)
  | .insertNew key session, ch, w => answer backend (fun _ => inserted backend w key session) w ch
  | .get key now, ch, w =>
    answer backend (fun db => (live w key (backend.clock now db), w)) w ch
  | .inactiveReason key, ch, w => answer backend (fun _ => ((w key).map Entry.revoked, w)) w ch
  | .revoke key, ch, w => answer backend (fun _ => revoked w key) w ch
  | .revokeBySubject filter issuedAtOrBefore now, ch, w =>
    answer backend (fun db => ((), revokedBySubject backend w filter issuedAtOrBefore
      (backend.clock now db))) w ch
  | .sweepExpired now, ch, w =>
    answer backend (fun db => ((), sweptAt backend w (backend.clock now db))) w ch
  | _, _, _ => none

/-- The environment does nothing of its own. -/
inductive Act where
  deriving DecidableEq

def machine (backend : Backend) : Machine Op Res Sessions Choice Act where
  exec := exec backend
  act := nofun

/-- Any request may start at any time. -/
def anyRun : Guard Op Request Sessions Choice Act := Guard.any

end Guardian.Session
