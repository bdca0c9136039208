import Guardian.Metadata
import Guardian.Lib.History
import Guardian.Replay.Floors

/- Authentication of account requests (`services/mod.rs`, `session.rs`, and the
   first part of `services/configure_account.rs`): the timestamp check, the
   wallet's or the session's signature, and the replay floor, in this order and
   each a call of its own. The sweep of stale session floors
   (`builder/handle.rs`) runs beside the handlers.

   Any number of handlers and sweeps, on any number of replicas, share one
   `World`: the floors, and a time that only goes forward. What the metadata
   and session stores answer is up to the environment, and so is how far the
   clock a call reads is ahead of the slowest one. The cryptography is a
   parameter (`Server`).

   Timestamps are the code's `i64`: `validate_request_timestamp` subtracts and
   takes the absolute value in `i64`, where both wrap. -/
namespace Guardian.Replay

open Interleaving

/-! ## Timestamps -/

/-- `MAX_TIMESTAMP_SKEW_MS`. -/
def maxTimestampSkewMs : Int64 := 300000

/-- `MAX_TIMESTAMP_SKEW_SECS`. -/
def maxTimestampSkewSecs : Nat := 300

/-- `SessionConfig`: a lifetime bound that `SessionConfig::new` accepts. -/
structure SessionConfig where
  maxTtlSeconds : Nat
  outlasts_skew : maxTimestampSkewSecs + 60 + 1 ≤ maxTtlSeconds
  le_default : maxTtlSeconds ≤ 8 * 60 * 60

/-- How long before now a floor is kept. -/
def SessionConfig.windowMs (cfg : SessionConfig) : Int64 :=
  Int64.ofNat (cfg.maxTtlSeconds + 2 * maxTimestampSkewSecs) * 1000

/-- `i64::saturating_sub`. -/
def saturatingSub (a b : Int64) : Int64 := Int64.ofIntClamp (a.toInt - b.toInt)

/-- `stale_floor_cutoff_ms`. -/
def staleFloorCutoffMs (nowMs : Int64) (cfg : SessionConfig) : Int64 :=
  saturatingSub nowMs cfg.windowMs

/-- The test of `validate_request_timestamp`, as it is computed. -/
def withinSkew (serverNowMs requestTimestamp : Int64) : Bool :=
  !decide (maxTimestampSkewMs < (serverNowMs - requestTimestamp).abs)

/-! ## Requests and the stores they read -/

inductive RequestAuthFormat where
  | raw
  | eip712
  | session
  deriving DecidableEq, Repr

structure Credentials where
  pubkey : String
  signature : String
  timestamp : Int64
  authFormat : RequestAuthFormat
  requestPayload : String
  deriving DecidableEq

/-- The metadata row, as far as authentication reads it. -/
structure StoredAccount where
  auth : Auth
  /-- `network_config.is_evm()`. -/
  isEvm : Bool
  deriving DecidableEq

/-- A live session: its grant's signer, Guardian key and network. -/
structure MidenSession where
  signerCommitment : String
  guardianCommitment : String
  network : String
  deriving DecidableEq

inductive AuthError where
  | storageError (message : String)
  | accountNotFound (accountId : String)
  | authenticationFailed (message : String)
  | authorizationFailed (message : String)
  | authenticationReplay
  | unsupportedForNetwork (network operation : String)
  | walletSignatureRequired
  | sessionRevoked
  | sessionExpired
  /-- What the checks of `/configure` between timestamp and signature report. -/
  | configurationRefused
  deriving DecidableEq

/-- This replica: its acknowledgement keys, its network, its configuration, and
the signature schemes. A wallet is verified to the bytes of its key's
commitment, a session to its public key. -/
structure Server where
  config : SessionConfig
  ackCommitment : SignatureScheme → String
  network : String
  /-- `Auth::verify` for the wallet formats. -/
  verify : Auth → String → Credentials → Except String (List UInt8)
  authRequestWord : String → Credentials → Except String Nat
  credentialPublicKey : String → Except String (List UInt8)
  verifySignature : List UInt8 → String → Nat → Except String Unit
  /-- `store_key`: SHA-256. -/
  storeKey : List UInt8 → List UInt8

/-- What a handler reads the clock for. -/
inductive ClockUse where
  | timestampCheck
  | sessionLookup
  | floorSweep
  deriving DecidableEq

inductive Op where
  | getMetadata (account : String)
  | now (use : ClockUse)
  | findSession (publicKey : List UInt8) (now : Int64)
  /-- The checks of `/configure` that neither read nor write replay state. -/
  | admitConfiguration (account : String)
  | createMetadata (account : String)
  | updateLastAuthTimestampCas (account signer : String) (newTimestamp : Int64)
  | purgeSessionFloors (beforeMs : Int64)

abbrev Res : Op → Type
  | .getMetadata _ => Except String (Option StoredAccount)
  | .now _ => Int64
  | .findSession _ _ => Except AuthError MidenSession
  | .admitConfiguration _ => Bool
  | .createMetadata _ => Except String Bool
  | .updateLastAuthTimestampCas _ _ _ => Except String Bool
  | .purgeSessionFloors _ => Except String Unit

/-- A handler: its calls, and a value or the error it answers with. -/
abbrev Handler := ExceptT AuthError (Prog Op Res)

namespace Handler

def call (o : Op) : Handler (Res o) := ExceptT.lift (Prog.op o)

/-- `map_err(..)?`. -/
def orFail {ε α : Type} (x : Except ε α) (wrap : ε → AuthError) : Handler α :=
  match x with
  | .ok a => pure a
  | .error e => throw (wrap e)

end Handler

open Handler

/-! ## The handlers -/

/-- `validate_request_timestamp`. -/
def validateRequestTimestamp (creds : Credentials) : Handler Int64 := do
  let serverNowMs ← call (.now .timestampCheck)
  if withinSkew serverNowMs creds.timestamp then return creds.timestamp
  else
    let drift := (serverNowMs - creds.timestamp).abs
    throw (.authenticationFailed
      ("Request timestamp outside allowed window: " ++ toString drift.toInt ++
        "ms drift (max " ++ toString maxTimestampSkewMs.toInt ++ "ms)"))

/-- `authenticate_delegated_signer`: the signature before the session. -/
def authenticateDelegatedSigner (server : Server) (creds : Credentials) (message : Nat) :
    Handler (List UInt8 × MidenSession) := do
  let sessionPublicKey ← orFail (server.credentialPublicKey creds.pubkey) .authenticationFailed
  orFail (server.verifySignature sessionPublicKey creds.signature message) .authenticationFailed
  let now ← call (.now .sessionLookup)
  let session ← orFail (← call (.findSession sessionPublicKey now)) id
  return (sessionPublicKey, session)

/-- `str::eq_ignore_ascii_case`. -/
def eqIgnoreAsciiCase (a b : String) : Bool :=
  a.toList.map Char.toLower == b.toList.map Char.toLower

/-- `verify_session_request`: the session's public key, if its grant still names
this Guardian and its signer cosigns the account. -/
def verifySessionRequest (server : Server) (account : String) (metadata : StoredAccount)
    (creds : Credentials) (sessionEligible : Bool) : Handler (List UInt8) := do
  let message ← orFail (server.authRequestWord account creds) .authenticationFailed
  let (sessionPublicKey, session) ← authenticateDelegatedSigner server creds message
  let namesAckKey (scheme : SignatureScheme) : Bool :=
    eqIgnoreAsciiCase session.guardianCommitment (server.ackCommitment scheme)
  if !sessionEligible then throw .walletSignatureRequired
  else if !([SignatureScheme.falcon, .ecdsa].any namesAckKey) || session.network != server.network then
    throw (.authenticationFailed "Session grant names another Guardian key or network")
  else if !((metadata.auth.signerScheme session.signerCommitment).any namesAckKey) then
    throw (.authorizationFailed "Session signer is not an authorized cosigner of this account")
  else return sessionPublicKey

/-- `consume_auth_timestamp`. -/
def consumeAuthTimestamp (account signer : String) (requestTimestamp : Int64) : Handler Unit := do
  let answer ← call (.updateLastAuthTimestampCas account signer requestTimestamp)
  let updated ← orFail answer
    (fun e => .storageError ("Failed to update last auth timestamp: " ++ e))
  if updated then return () else throw .authenticationReplay

/-- The floor key the request's credentials are verified to. -/
def verifyCredentials (server : Server) (account : String) (metadata : StoredAccount)
    (creds : Credentials) (sessionEligible : Bool) : Handler String := do
  if creds.authFormat = .session then
    let sessionPublicKey ← verifySessionRequest server account metadata creds sessionEligible
    return replayFloorKey (server.storeKey sessionPublicKey)
  else
    let signer ← orFail (server.verify metadata.auth account creds) .authenticationFailed
    return signerCommitment signer

/-- `Auth::EvmEcdsa`. -/
def isEvmEcdsa : Auth → Bool
  | .evmEcdsa _ => true
  | _ => false

/-- `resolve_account_with`: the floor key the request was accepted under. -/
def resolveAccountWith (server : Server) (account : String) (creds : Credentials)
    (sessionEligible : Bool) : Handler String := do
  let found ← orFail (← call (.getMetadata account))
    (fun e => .storageError ("Failed to check account: " ++ e))
  match found with
  | none => throw (.accountNotFound account)
  | some metadata =>
    let requestTimestamp ← validateRequestTimestamp creds
    if metadata.isEvm || isEvmEcdsa metadata.auth then
      throw (.unsupportedForNetwork "evm" "delta_api")
    else
      let replayFloor ← verifyCredentials server account metadata creds sessionEligible
      consumeAuthTimestamp account replayFloor requestTimestamp
      return replayFloor

/-- `configure_account` up to the replay floor, for the signer set `auth` it
submits: session credentials are rejected, and the metadata row is claimed
before the timestamp is consumed. -/
def authenticateConfiguration (server : Server) (account : String) (creds : Credentials)
    (auth : Auth) : Handler String := do
  if creds.authFormat = .session then
    let _ ← validateRequestTimestamp creds
    let message ← orFail (server.authRequestWord account creds) .authenticationFailed
    let _ ← authenticateDelegatedSigner server creds message
    throw .walletSignatureRequired
  else
    let requestTimestamp ← validateRequestTimestamp creds
    let existing ← orFail (← call (.getMetadata account))
      (fun e => .storageError ("Failed to check existing account: " ++ e))
    if ← call (.admitConfiguration account) then
      let signer ← orFail (server.verify auth account creds)
        (fun e => .authenticationFailed ("Signature verification failed: " ++ e))
      if existing.isNone then
        let _ ← orFail (← call (.createMetadata account))
          (fun e => .storageError ("Failed to create account metadata: " ++ e))
      consumeAuthTimestamp account (signerCommitment signer) requestTimestamp
      return signerCommitment signer
    else throw .configurationRefused

/-- One round of the session sweep, as far as it touches the floors. -/
def sweepSessionFloors (server : Server) : Handler Unit := do
  let now ← call (.now .floorSweep)
  -- a failed purge is logged, and the next round tries again
  let _ ← call (.purgeSessionFloors (staleFloorCutoffMs now server.config))
  return ()

inductive Request where
  | account (server : Server) (account : String) (creds : Credentials) (sessionEligible : Bool)
  | configure (server : Server) (account : String) (creds : Credentials) (auth : Auth)
  | sweep (server : Server)

/-- What a started process runs; its answer goes to the client. -/
def handle : Request → Prog Op Res Unit
  | .account server account creds sessionEligible => do
    let _ ← (resolveAccountWith server account creds sessionEligible).run
    return ()
  | .configure server account creds auth => do
    let _ ← (authenticateConfiguration server account creds auth).run
    return ()
  | .sweep server => do
    let _ ← (sweepSessionFloors server).run
    return ()

/-! ## The machine -/

/-- When a handler's timestamp check read the clock, and what it read. -/
structure Check where
  time : Nat
  shown : Int64
  deriving DecidableEq

/-- The floors, the time in milliseconds, and the last timestamp check of each
process, which no process reads. -/
structure World (store : FloorStore) where
  floors : Floors store.Cell
  time : Nat
  checked : Nat → Check

/-- No handler has checked anything yet. -/
def World.start {store : FloorStore} (floors : Floors store.Cell) (time : Nat) : World store :=
  { floors, time, checked := fun _ => ⟨0, 0⟩ }

/-- What the environment decides about a call: the answer of a store that is not
modelled, how far ahead the clock is, and whether a statement failed before it
ran (`failed`) or only lost its answer (`lost`). -/
inductive Choice where
  | metadata (answer : Except String (Option StoredAccount))
  | clock (ahead : Nat)
  | session (answer : Except AuthError MidenSession)
  | admitted (answer : Bool)
  | created (answer : Except String Bool)
  | done
  | lost
  | failed

/-- The last millisecond a `DateTime<Utc>` can hold. -/
def dateTimeMaxMillis : Nat := 8210266876799999

/-- Time passes. -/
inductive Act where
  | tick (ms : Nat)
  deriving DecidableEq

section Machine
variable {store : FloorStore}

/-- A clock read, remembered when a timestamp is checked against it. -/
def World.read (pid : Nat) (use : ClockUse) (ahead : Nat) (w : World store) :
    Int64 × World store :=
  let shown := Int64.ofNat (w.time + ahead)
  (shown, match use with
    | .timestampCheck => { w with checked := Function.update w.checked pid ⟨w.time, shown⟩ }
    | _ => w)

def exec (pid : Nat) : (op : Op) → Choice → World store → Option (Res op × World store)
  | .getMetadata _, .metadata answer, w => some (answer, w)
  | .now use, .clock ahead, w =>
    if w.time + ahead ≤ dateTimeMaxMillis then some (w.read pid use ahead) else none
  | .findSession _ _, .session answer, w => some (answer, w)
  | .admitConfiguration _, .admitted answer, w => some (answer, w)
  | .createMetadata _, .created answer, w => some (answer, w)
  | .updateLastAuthTimestampCas account signer ts, .done, w =>
    let (updated, floors) := store.cas account signer ts w.floors
    some (.ok updated, { w with floors })
  | .updateLastAuthTimestampCas account signer ts, .lost, w =>
    some (.error "connection lost", { w with floors := (store.cas account signer ts w.floors).2 })
  | .updateLastAuthTimestampCas _ _ _, .failed, w => some (.error "statement failed", w)
  | .purgeSessionFloors beforeMs, .done, w =>
    some (.ok (), { w with floors := store.purge beforeMs w.floors })
  | .purgeSessionFloors beforeMs, .lost, w =>
    some (.error "connection lost", { w with floors := store.purge beforeMs w.floors })
  | .purgeSessionFloors _, .failed, w => some (.error "statement failed", w)
  | _, _, _ => none

def machine (store : FloorStore) : Machine Op Res (World store) Choice Act where
  exec := exec
  act := fun (.tick ms) w => some { w with time := w.time + ms }

/-- An accepted request: its account, the floor key it was verified to, and its
timestamp. -/
abbrev Accepted := String × String × Int64

/-- The requests that passed authentication, latest first: those whose
compare-and-set answered that the floor was raised. -/
def noteAccepted : Note Op (World store) Choice (List Accepted)
  | _, .updateLastAuthTimestampCas account signer ts, .done, w, accepted =>
    if (store.cas account signer ts w.floors).1 then (account, signer, ts) :: accepted
    else accepted
  | _, _, _, _, accepted => accepted

end Machine
end Guardian.Replay
