import Guardian.Evm.Proposal
import Guardian.Lib.Rely
import Guardian.Login.ChallengeStore
import Guardian.Session.Store

/- Logging in (`evm/session.rs`, `dashboard/state.rs`). A caller asks for a challenge
   of its principal, an EVM address or an operator's commitment, signs it, and sends
   the signature back: `verify` finds the pending challenge the signature is of,
   claims it, and opens a session.

   Handlers of any number of replicas run beside each other on the shared stores, a
   store call at a time, and any call may fail, or be applied and reported as failed.
   A handler reads its own clock once; the database's only goes forward. -/
namespace Guardian.Login

open Interleaving
open Session (SessionSubject StoredSession)

inductive Realm where
  | operator
  | evm
  deriving DecidableEq, Repr

/-- The signature schemes, and the formats they come in. -/
structure Verifier where
  /-- `recover_session_address`: who signed the challenge. -/
  recoverSessionAddress : EvmChallenge → String → Option String
  normalizeCommitment : String → Option String
  /-- The digest of a domain, a commitment, a nonce and an expiry. -/
  signingDigest : String → String → String → Int → Option String
  /-- The commitment to the key a signature carries; none of a malformed one. -/
  signatureCommitment : String → Option String
  /-- Whether the signature is of the digest, under the key it carries. -/
  verify : String → String → Bool

structure DashboardConfig where
  canonicalDomain : String
  nonceTtl : Int
  sessionTtl : Int
  maxOutstandingChallenges : Nat
  deriving DecidableEq, Repr

def seconds (n : Int) : Int := n * 10 ^ 9

def challengeTtlSecs : Int := 300

def sessionTtlSecs : Int := 8 * 60 * 60

def maxOutstandingChallenges : Nat := 8

/-- How many challenges of a principal may be pending. -/
def maxOutstanding (cfg : DashboardConfig) : Realm → Nat
  | .operator => cfg.maxOutstandingChallenges
  | .evm => maxOutstandingChallenges

/-! ## Calls -/

/-- What a caller proves who it is with. -/
inductive Credential where
  | evm (nonce signature : String)
  | operator (signature : String)
  deriving DecidableEq, Repr

/-- How a session came about: for whom, with which challenge and which credential. -/
structure Origin where
  principal : String
  key : String
  credential : Credential
  deriving DecidableEq, Repr

inductive Op where
  | now
  /-- A nonce, or a session token. -/
  | random
  | refreshAllowlist
  | rateLimit
  | lookup (commitment : String)
  | issue (realm : Realm) (principal : String) (challenge : StoredChallenge)
      (maxOutstanding : Nat) (now : Int)
  | activeFor (realm : Realm) (principal : String) (now : Int)
  | consume (realm : Realm) (principal key : String) (now : Int)
  /-- Insert a session; no code reads how it came about. -/
  | insert (realm : Realm) (session : StoredSession) (origin : Origin)
  | sweepExpired (realm : Realm) (now : Int)

/-- A store that fails answers `none` or `false`. -/
abbrev Res : Op → Type
  | .now => Int
  | .random => String
  | .refreshAllowlist => Bool
  | .rateLimit => Bool
  | .lookup _ => Option String
  | .issue _ _ _ _ _ => Bool
  | .activeFor _ _ _ => Option (List StoredChallenge)
  | .consume _ _ _ _ => Option Bool
  | .insert _ _ _ => Bool
  | .sweepExpired _ _ => Bool

abbrev LoginProg := Prog Op Res

def call (o : Op) : LoginProg (Res o) := Prog.op o

/-! ## Asking for a challenge -/

/-- `EvmSessionState::issue_challenge`; none on an error. -/
def issueEvmChallenge (address : String) : LoginProg (Option EvmChallenge) := do
  let now ← call .now
  match Evm.normalizeEvmAddress address.toList with
  | .error _ => return none
  | .ok normal =>
    let nonce ← call .random
    let challenge : EvmChallenge :=
      ⟨String.ofList normal, nonce, now, now + seconds challengeTtlSecs⟩
    let stored : StoredChallenge :=
      ⟨nonce, .evmChallenge challenge, challenge.issuedAt, challenge.expiresAt⟩
    if ← call (.issue .evm challenge.address stored maxOutstandingChallenges now) then
      return some challenge
    else return none

/-- `DashboardState::issue_challenge`: who is not on the allowlist gets a digest that
nothing is stored of. -/
def issueOperatorChallenge (v : Verifier) (cfg : DashboardConfig) (commitment : String) :
    LoginProg (Option String) := do
  let now ← call .now
  if ← call .refreshAllowlist then
    if ← call .rateLimit then
      let normal := (v.normalizeCommitment commitment).getD commitment
      let nonce ← call .random
      match v.signingDigest cfg.canonicalDomain normal nonce (now + cfg.nonceTtl) with
      | none => return none
      | some digest =>
        match ← call (.lookup normal) with
        | none => return some digest
        | some _ =>
          let stored : StoredChallenge := ⟨digest, .operatorDigest digest, now, now + cfg.nonceTtl⟩
          if ← call (.issue .operator normal stored cfg.maxOutstandingChallenges now) then
            return some digest
          else return none
    else return none
  else return none

/-! ## Verifying one -/

/-- The claim of a challenge, and the session. -/
def openSession (realm : Realm) (origin : Origin) (subject : SessionSubject) (now ttl : Int) :
    LoginProg (Option StoredSession) := do
  match ← call (.consume realm origin.principal origin.key now) with
  | some true =>
    let _ ← call .random
    let session : StoredSession := ⟨subject, now, now + ttl⟩
    if ← call (.insert realm session origin) then return some session else return none
  | _ => return none

/-- The challenge of a nonce, under its key. -/
def matchNonce (nonce : String) (active : List StoredChallenge) :
    Option (StoredChallenge × EvmChallenge) :=
  active.findSome? fun stored =>
    match stored.payload with
    | .evmChallenge challenge =>
      if Evm.eqIgnoreAsciiCase challenge.nonce.toList nonce.toList then some (stored, challenge)
      else none
    | .operatorDigest _ => none

/-- `EvmSessionState::verify`. -/
def verifyEvm (v : Verifier) (address nonce signature : String) :
    LoginProg (Option StoredSession) := do
  let now ← call .now
  match Evm.normalizeEvmAddress address.toList, Evm.normalizeSignature signature.toList with
  | .ok address, .ok signature =>
    let principal := String.ofList address
    let signature := String.ofList signature
    match ← call (.activeFor .evm principal now) with
    | none => return none
    | some active =>
      match matchNonce nonce active with
      | none => return none
      | some (stored, challenge) =>
        if v.recoverSessionAddress challenge signature = some principal then
          openSession .evm ⟨principal, stored.key, .evm nonce signature⟩ (.evm principal) now
            (seconds sessionTtlSecs)
        else return none
  | _, _ => return none

/-- Whether the signature is of the challenge. -/
def isSignatureOf (v : Verifier) (signature : String) (stored : StoredChallenge) : Bool :=
  match stored.payload with
  | .operatorDigest digest => v.verify digest signature
  | .evmChallenge _ => false

/-- `DashboardState::verify`, past the allowlist's refresh and the rate limit. -/
def verifyAdmitted (v : Verifier) (cfg : DashboardConfig) (commitment signature : String)
    (now : Int) : LoginProg (Option StoredSession) := do
  match v.normalizeCommitment commitment with
  | none => return none
  | some principal =>
    match ← call (.lookup principal) with
    | none => return none
    | some operatorId =>
      if v.signatureCommitment signature = some principal then
        match ← call (.activeFor .operator principal now) with
        | none => return none
        | some active =>
          match active.find? (isSignatureOf v signature) with
          | none => return none
          | some stored =>
            openSession .operator ⟨principal, stored.key, .operator signature⟩
              (.operator operatorId principal) now cfg.sessionTtl
      else return none

/-- `DashboardState::verify`. -/
def verifyOperator (v : Verifier) (cfg : DashboardConfig) (commitment signature : String) :
    LoginProg (Option StoredSession) := do
  let now ← call .now
  if ← call .refreshAllowlist then
    if ← call .rateLimit then verifyAdmitted v cfg commitment signature now else return none
  else return none

/-- `sweep_expired`, of the challenges. -/
def sweep (realm : Realm) : LoginProg Unit := do
  let now ← call .now
  let _ ← call (.sweepExpired realm now)

inductive Request where
  | evmChallenge (address : String)
  | evmVerify (address nonce signature : String)
  | operatorChallenge (commitment : String)
  | operatorVerify (commitment signature : String)
  | sweep (realm : Realm)
  deriving DecidableEq, Repr

def handle (v : Verifier) (cfg : DashboardConfig) : Request → LoginProg Unit
  | .evmChallenge address => do
    let _ ← issueEvmChallenge address
  | .evmVerify address nonce signature => do
    let _ ← verifyEvm v address nonce signature
  | .operatorChallenge commitment => do
    let _ ← issueOperatorChallenge v cfg commitment
  | .operatorVerify commitment signature => do
    let _ ← verifyOperator v cfg commitment signature
  | .sweep realm => sweep realm

/-! ## The machine -/

/-- What is remembered of a run, oldest first. -/
inductive Entry where
  /-- The challenge as the store keeps it. -/
  | issued (realm : Realm) (principal : String) (challenge : StoredChallenge)
  | listed (commitment operatorId : String)
  | consumed (realm : Realm) (principal key : String) (now : Int)
  | opened (realm : Realm) (session : StoredSession) (origin : Origin)
  deriving DecidableEq, Repr

/-- What a challenge is claimed by. -/
structure Token where
  realm : Realm
  principal : String
  key : String
  deriving DecidableEq, Repr

/-- A claimed challenge that no session was opened with yet, and by whom. -/
structure Claim where
  pid : Nat
  token : Token
  deriving DecidableEq, Repr

/-- No handler reads the claims and the log. -/
structure World (store : ChallengeStore) where
  challenges : Realm → store.State
  allowlist : String → Option String
  clock : Int
  claims : List Claim
  log : List Entry

variable {store : ChallengeStore}

namespace World

def note (entry : Entry) (w : World store) : World store := { w with log := w.log ++ [entry] }

def put (realm : Realm) (s : store.State) (w : World store) : World store :=
  { w with challenges := Function.update w.challenges realm s }

def issue (realm : Realm) (principal : String) (challenge : StoredChallenge)
    (maxOutstanding : Nat) (now : Int) (w : World store) : World store :=
  let instant := store.clock now w.clock
  (w.put realm (store.issue principal challenge maxOutstanding instant (w.challenges realm))).note
    (.issued realm principal (store.kept principal challenge instant))

/-- The claim of a challenge, and the world after it. -/
def consume (realm : Realm) (principal key : String) (now : Int) (w : World store) :
    Bool × World store :=
  let instant := store.clock now w.clock
  let (claimed, s) := store.consume principal key instant (w.challenges realm)
  (claimed, if claimed then (w.put realm s).note (.consumed realm principal key instant)
    else w.put realm s)

/-- A handler that learns of its claim holds it. -/
def hold (claim : Claim) (w : World store) : World store := { w with claims := claim :: w.claims }

def insert (pid : Nat) (realm : Realm) (session : StoredSession) (origin : Origin)
    (w : World store) : World store :=
  World.note (.opened realm session origin)
    { w with claims := w.claims.erase ⟨pid, realm, origin.principal, origin.key⟩ }

def sweepExpired (realm : Realm) (now : Int) (w : World store) : World store :=
  w.put realm (store.sweepExpired (store.clock now w.clock) (w.challenges realm))

/-- The answer of the allowlist. -/
def lookup (commitment : String) (w : World store) : Option String × World store :=
  match w.allowlist commitment with
  | none => (none, w)
  | some operatorId => (some operatorId, w.note (.listed commitment operatorId))

end World

/-- What the environment decides about a call. -/
inductive Choice where
  | now (now : Int)
  | random (text : String)
  | flag (answer : Bool)
  | done
  | failed
  | lost
  deriving DecidableEq, Repr

def exec (pid : Nat) : (op : Op) → Choice → World store → Option (Res op × World store)
  | .now, .now now, w => some (now, w)
  | .random, .random text, w => some (text, w)
  | .refreshAllowlist, .flag answer, w => some (answer, w)
  | .rateLimit, .flag answer, w => some (answer, w)
  | .lookup commitment, .done, w => some (w.lookup commitment)
  | .issue realm principal challenge maxOutstanding now, .done, w =>
    some (true, w.issue realm principal challenge maxOutstanding now)
  | .issue realm principal challenge maxOutstanding now, .lost, w =>
    some (false, w.issue realm principal challenge maxOutstanding now)
  | .issue _ _ _ _ _, .failed, w => some (false, w)
  | .activeFor realm principal now, .done, w =>
    some (some (store.activeFor principal (store.clock now w.clock) (w.challenges realm)), w)
  | .activeFor _ _ _, .failed, w => some (none, w)
  | .consume realm principal key now, .done, w =>
    match w.consume realm principal key now with
    | (true, w) => some (some true, w.hold ⟨pid, realm, principal, key⟩)
    | (false, w) => some (some false, w)
  | .consume realm principal key now, .lost, w => some (none, (w.consume realm principal key now).2)
  | .consume _ _ _ _, .failed, w => some (none, w)
  | .insert realm session origin, .done, w => some (true, w.insert pid realm session origin)
  | .insert realm session origin, .lost, w => some (false, w.insert pid realm session origin)
  | .insert _ _ _, .failed, w => some (false, w)
  | .sweepExpired realm now, .done, w => some (true, w.sweepExpired realm now)
  | .sweepExpired _ _, .failed, w => some (false, w)
  | _, _, _ => none

/-- What happens beside the handlers: time passes, and the allowlist is reloaded. -/
inductive Act where
  | tick (duration : Nat)
  | reload (allowlist : String → Option String)

def act : Act → World store → Option (World store)
  | .tick duration, w => some { w with clock := w.clock + duration }
  | .reload allowlist, w => some { w with allowlist := allowlist }

def machine (store : ChallengeStore) : Machine Op Res (World store) Choice Act := ⟨exec, act⟩

def World.start (allowlist : String → Option String) (clock : Int) : World store :=
  ⟨fun _ => store.empty, allowlist, clock, [], []⟩

/-- Any number of handlers, on the shared stores. -/
abbrev Reachable (store : ChallengeStore) (v : Verifier) (cfg : DashboardConfig)
    (allowlist : String → Option String) (clock : Int) :
    Conf Op Res (World store) Request → Prop :=
  Reach (machine store) (handle v cfg) Guard.any (World.start allowlist clock)

end Guardian.Login
