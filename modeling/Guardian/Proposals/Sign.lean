import Guardian.Lib.History
import Guardian.Lib.Json
import Guardian.Multisig.Admission
import Guardian.Storage.Operations

/- Proposals and their approvals (`services/push_delta_proposal.rs`,
   `services/sign_delta_proposal.rs`, and the proposal writes of
   `storage/postgres.rs` and `storage/filesystem.rs`).

   An approval is kept twice: among the cosigner signatures of the status, and in
   the `signatures` list of the payload, which is JSON. Signing reads the whole
   proposal, appends to both, and writes the whole proposal back if its status is
   still the one it read; otherwise it reads again, at most sixteen times. Any
   number of requests run at once, on any replica.

   The payload of a push is the client's, and so is the JSON of the one signature
   it may carry. The checks of a push that concern the candidate queue and the
   delta itself neither read nor write an approval; they are one call here. Writes
   of the EVM service go to EVM accounts, which both services refuse. -/
namespace Guardian.Proposals

open Interleaving Json

/-! ## Signatures in payloads -/

/-- `DeltaSignature`: an entry of the payload's `signatures`. -/
structure DeltaSignature where
  signerId : String
  signature : ProposalSignature
  deriving DecidableEq, Repr

section Payload
variable {N : Type}

/-- `Value::get`. -/
def get (key : String) : Value N → Option (Value N)
  | .obj entries => entries.lookup key
  | _ => none

/-- `Map::insert`: an entry that is there is replaced. -/
def insertEntry (key : String) (value : Value N) : List (String × Value N) → List (String × Value N)
  | [] => [(key, value)]
  | (k, v) :: rest => if k = key then (key, value) :: rest else (k, v) :: insertEntry key value rest

/-- The serialized form of a signature; a missing key and the raw format are left
out. -/
def signatureToValue : ProposalSignature → Value N
  | .falcon signature => .obj [("scheme", .str "falcon"), ("signature", .str signature)]
  | .ecdsa signature publicKey format =>
    .obj ([("scheme", .str "ecdsa"), ("signature", .str signature)] ++
      (match publicKey with
        | some key => [("public_key", .str key)]
        | none => []) ++
      (match format with
        | .raw => []
        | .eip712 => [("message_format", .str "eip712")]))

/-- An optional string field. -/
def optionalString : Option (Value N) → Option (Option String)
  | none | some .null => some none
  | some (.str s) => some (some s)
  | some _ => none

/-- The `message_format` field; raw where it is left out. -/
def messageFormat : Option (Value N) → Option EcdsaMessageFormat
  | none => some .raw
  | some (.str s) =>
    if s = "raw" then some .raw else if s = "eip712" then some .eip712 else none
  | some _ => none

/-- How a signature is read back; other fields are ignored. -/
def signatureFromValue (value : Value N) : Option ProposalSignature :=
  match get "scheme" value, get "signature" value with
  | some (.str scheme), some (.str signature) =>
    if scheme = "falcon" then some (.falcon signature)
    else if scheme = "ecdsa" then do
      let key ← optionalString (get "public_key" value)
      let format ← messageFormat (get "message_format" value)
      return .ecdsa signature key format
    else none
  | _, _ => none

def DeltaSignature.toValue (s : DeltaSignature) : Value N :=
  .obj [("signer_id", .str s.signerId), ("signature", signatureToValue s.signature)]

def DeltaSignature.fromValue (value : Value N) : Option DeltaSignature :=
  match get "signer_id" value, get "signature" value with
  | some (.str signerId), some signature => (signatureFromValue signature).map (⟨signerId, ·⟩)
  | _, _ => none

/-- The `signatures` list of a payload. -/
def payloadSignatures (payload : Value N) : List (Value N) :=
  match get "signatures" payload with
  | some (.arr items) => items
  | _ => []

end Payload

/-! ## Proposals -/

structure CosignerSignature where
  signature : ProposalSignature
  timestamp : Time
  signerId : String
  deriving DecidableEq, Repr

/-- `DeltaStatus`, of which a proposal is `Pending`. -/
inductive ProposalStatus where
  | pending (timestamp : Time) (proposerId : String) (cosignerSigs : List CosignerSignature)
  | other (status : DeltaStatus)
  deriving DecidableEq, Repr

/-- A proposal's `DeltaObject`. -/
structure Proposal (N : Type) where
  accountId : String
  nonce : Nonce
  prevCommitment : Commitment
  deltaPayload : Value N
  status : ProposalStatus

inductive ProposalError where
  | resolve (message : String)
  | accountReleased
  | accountPaused
  | unsupportedForNetwork (network operation : String)
  | proposalNotFound (accountId commitment : String)
  | proposalAlreadySigned (signerId : String)
  | refused (message : String)
  | admission (error : Multisig.AdmissionError)
  | storageError (message : String)
  | pendingProposalsLimit (limit : Nat)
  | accountRequestCapacityExceeded (limit used : Nat)
  deriving DecidableEq, Repr

/-- What account resolution answers. -/
structure ResolvedAccount where
  auth : Auth
  isEvm : Bool
  releasedAt : Option Time
  pausedAt : Option Time
  signerCommitment : String

/-- What the checks of a push answer: the tail it builds on, and the id the
proposal is stored under. -/
structure CheckedPush where
  prevCommitment : Commitment
  commitment : String

inductive Op (N : Type) where
  | resolveAccount (accountId : String)
  | pullDeltaProposal (accountId commitment : String)
  | now
  | updateDeltaProposalIfStatus (commitment : String) (proposal : Proposal N)
      (expected : ProposalStatus)
  | checkPush (accountId : String) (nonce : Nonce) (payload : Value N)
  | admitDeltaProposal (commitment : String) (proposal : Proposal N)
  | deleteDeltaProposal (accountId commitment : String)

variable {N : Type}

abbrev Res : Op N → Type
  | .resolveAccount _ => Except ProposalError ResolvedAccount
  | .pullDeltaProposal _ _ => Option (Proposal N)
  | .now => Time
  | .updateDeltaProposalIfStatus _ _ _ => Except String Bool
  | .checkPush _ _ _ => Except ProposalError CheckedPush
  | .admitDeltaProposal _ _ => Except String ProposalWrite
  | .deleteDeltaProposal _ _ => Except String Unit

abbrev Handler (N : Type) := ExceptT ProposalError (Prog (Op N) Res)

namespace Handler

def call (o : Op N) : Handler N (Res o) := ExceptT.lift (Prog.op o)

/-- `map_err(..)?`. -/
def orFail {ε α : Type} (x : Except ε α) (wrap : ε → ProposalError) : Handler N α :=
  match x with
  | .ok a => pure a
  | .error e => throw (wrap e)

end Handler

open Handler

/-- What this replica computes of texts: how payloads are written and normalized,
and the signature schemes. -/
structure Server (N : Type) where
  crypto : Multisig.Crypto
  payloadText : Value N → Payload
  normalizeCommitmentHex : String → Except String String
  normalizePayload : Value N → Except String (Value N)

/-! ## Signing -/

/-- `proposal_tx_summary` and `verify_proposal_signature`. -/
def approvalSigner (server : Server N) (payload : Value N) (signature : ProposalSignature) :
    Except Multisig.AdmissionError String := do
  let summary ← Multisig.proposalTxSummary server.crypto (server.payloadText payload)
  Multisig.verifyProposalSignature server.crypto summary signature

/-- `SignatureScheme::as_str`. -/
def schemeText : SignatureScheme → String
  | .falcon => "falcon"
  | .ecdsa => "ecdsa"

/-- `ensure_cosigner_approval`. -/
def ensureCosignerApproval (auth : Auth) (approvalSigner : String) (signature : ProposalSignature) :
    Except Multisig.AdmissionError Unit :=
  match auth.cosigners.find? (fun cosigner =>
      Multisig.eqIgnoreAsciiCase cosigner.commitment approvalSigner) with
  | none => .error (.invalidProposalSignature "Approval signer is not a cosigner of this account")
  | some cosigner =>
    if cosigner.scheme = Multisig.schemeOf signature then .ok ()
    else .error (.invalidProposalSignature
      ("Approval is signed under " ++ schemeText (Multisig.schemeOf signature) ++
        ", but this account verifies its signer under " ++ schemeText cosigner.scheme))

/-- The payload with one more entry in its `signatures`. -/
def appendSignature (payload entry : Value N) : Except ProposalError (Value N) :=
  match payload with
  | .obj entries =>
    match entries.lookup "signatures" with
    | some (.arr items) => .ok (.obj (insertEntry "signatures" (.arr (items ++ [entry])) entries))
    | _ => .ok (.obj (insertEntry "signatures" (.arr [entry]) entries))
  | _ => .error (.admission (.invalidDelta "delta_payload must be an object"))

/-- `with_approval`. -/
def withApproval (proposal : Proposal N) (commitment signer : String)
    (signature : ProposalSignature) (now : Time) : Except ProposalError (Proposal N) :=
  match proposal.status with
  | .other _ => .error (.proposalNotFound proposal.accountId commitment)
  | .pending timestamp proposerId cosignerSigs =>
    if cosignerSigs.any (fun sig => Multisig.eqIgnoreAsciiCase sig.signerId signer) then
      .error (.proposalAlreadySigned signer)
    else do
      let entry : DeltaSignature := ⟨signer, signature⟩
      let deltaPayload ← appendSignature proposal.deltaPayload entry.toValue
      return { proposal with
        deltaPayload
        status := .pending timestamp proposerId (cosignerSigs ++ [⟨signature, now, signer⟩]) }

/-- `load_pending_proposal`. -/
def loadPendingProposal (accountId commitment : String) : Handler N (Proposal N) := do
  match ← call (.pullDeltaProposal accountId commitment) with
  | none => throw (.proposalNotFound accountId commitment)
  | some proposal =>
    match proposal.status with
    | .other _ => throw (.proposalNotFound accountId commitment)
    | .pending .. =>
      if Multisig.eqIgnoreAsciiCase proposal.accountId accountId then return proposal
      else throw (.proposalNotFound accountId commitment)

/-- `ensure_account_active_metadata` and the refusal of EVM accounts. -/
def resolveActive (accountId : String) : Handler N ResolvedAccount := do
  let resolved ← orFail (← call (.resolveAccount accountId)) id
  if resolved.releasedAt.isSome then throw .accountReleased
  else if resolved.pausedAt.isSome then throw .accountPaused
  else if resolved.isEvm then throw (.unsupportedForNetwork "evm" "delta_proposal")
  else return resolved

/-- `MAX_SIGN_ATTEMPTS`. -/
def maxSignAttempts : Nat := 16

/-- The loop of `sign_delta_proposal`. -/
def signLoop (accountId commitment signer : String) (signature : ProposalSignature) :
    Nat → Proposal N → Handler N (Proposal N)
  | 0, _ => throw (.storageError
      ("Delta proposal " ++ commitment ++ " kept changing while signing; retry the request"))
  | attempts + 1, proposal => do
    let now ← call .now
    let signed ← orFail (withApproval proposal commitment signer signature now) id
    let committed ← orFail
      (← call (.updateDeltaProposalIfStatus commitment signed proposal.status)) .storageError
    if committed then return signed
    else
      let current ← loadPendingProposal accountId commitment
      signLoop accountId commitment signer signature attempts current

/-- `sign_delta_proposal`. -/
def signDeltaProposal (server : Server N) (accountId commitment : String)
    (signature : ProposalSignature) : Handler N (Proposal N) := do
  let commitment ← orFail (server.normalizeCommitmentHex commitment) .refused
  let resolved ← resolveActive accountId
  let proposal ← loadPendingProposal accountId commitment
  let signer ← orFail (approvalSigner server proposal.deltaPayload signature) .admission
  orFail (ensureCosignerApproval resolved.auth signer signature) .admission
  signLoop accountId commitment signer signature maxSignAttempts proposal

/-! ## Creating -/

/-- The loop of `push_delta_proposal` over the signatures of its payload: only
the proposer's own. -/
def creationSignatures (server : Server N) (auth : Auth) (payload : Value N) (proposerId : String)
    (now : Time) : List (Value N) → List CosignerSignature →
    Except ProposalError (List CosignerSignature)
  | [], sigs => .ok sigs
  | value :: rest, sigs =>
    match DeltaSignature.fromValue value with
    | none => .error (.admission (.invalidDelta "Invalid signature entry in payload"))
    | some parsed =>
      if !sigs.isEmpty || !Multisig.eqIgnoreAsciiCase parsed.signerId proposerId then
        .error (.admission (.invalidProposalSignature
          "Proposal creation accepts only the proposer's own signature"))
      else do
        let signer ← (approvalSigner server payload parsed.signature).mapError .admission
        if Multisig.eqIgnoreAsciiCase signer proposerId then do
          (ensureCosignerApproval auth signer parsed.signature).mapError .admission
          creationSignatures server auth payload proposerId now rest
            (sigs ++ [⟨parsed.signature, now, proposerId⟩])
        else .error (.admission (.invalidProposalSignature
          "Signature does not belong to the proposer"))

/-- `push_delta_proposal`. -/
def pushDeltaProposal (server : Server N) (accountId : String) (nonce : Nonce)
    (deltaPayload : Value N) : Handler N Unit := do
  let payload ← orFail (server.normalizePayload deltaPayload) .refused
  let resolved ← resolveActive accountId
  let checked ← orFail (← call (.checkPush accountId nonce payload)) id
  let proposerId := resolved.signerCommitment
  let signedAt ← call .now
  let sigs ← orFail (creationSignatures server resolved.auth payload proposerId signedAt
    (payloadSignatures payload) []) id
  let timestamp ← call .now
  let proposal : Proposal N :=
    { accountId, nonce, prevCommitment := checked.prevCommitment, deltaPayload := payload
      status := .pending timestamp proposerId sigs }
  match ← orFail (← call (.admitDeltaProposal checked.commitment proposal)) .storageError with
  | .stored => return ()
  | .alreadyStored =>
    -- the answer is the stored proposal; nothing is written
    let _ ← call (.pullDeltaProposal accountId checked.commitment)
    return ()
  | .pendingLimit limit => throw (.pendingProposalsLimit limit)
  | .accountRequestBytesLimit limit used => throw (.accountRequestCapacityExceeded limit used)

/-- A request to one of the replicas, or the deletion of a proposal. -/
inductive Request (N : Type) where
  | sign (replica : Nat) (accountId commitment : String) (signature : ProposalSignature)
  | push (replica : Nat) (accountId : String) (nonce : Nonce) (deltaPayload : Value N)
  | delete (accountId commitment : String)

/-- What a started process runs; its answer goes to the caller. -/
def handle (servers : Nat → Server N) : Request N → Prog (Op N) Res Unit
  | .sign replica accountId commitment signature => do
    let _ ← (signDeltaProposal (servers replica) accountId commitment signature).run
    return ()
  | .push replica accountId nonce deltaPayload => do
    let _ ← (pushDeltaProposal (servers replica) accountId nonce deltaPayload).run
    return ()
  | .delete accountId commitment => do
    let _ ← Prog.op (.deleteDeltaProposal accountId commitment)
    return ()

/-! ## The machine -/

/-- The stored proposals, by account and id. -/
abbrev Store (N : Type) := String × String → Option (Proposal N)

/-- `update_delta_proposal_if_status`. -/
def updateIfStatus (store : Store N) (commitment : String) (proposal : Proposal N)
    (expected : ProposalStatus) : Bool × Store N :=
  match store (proposal.accountId, commitment) with
  | none => (false, store)
  | some stored =>
    if stored.status = expected then
      (true, Function.update store (proposal.accountId, commitment) (some proposal))
    else (false, store)

/-- `admit_delta_proposal`, where no limit refuses it. -/
def admitProposal (store : Store N) (commitment : String) (proposal : Proposal N) :
    ProposalWrite × Store N :=
  match store (proposal.accountId, commitment) with
  | some _ => (.alreadyStored, store)
  | none =>
    (.stored, Function.update store (proposal.accountId, commitment) (some proposal))

/-- What the environment decides about a call: the answer of a part that is not
modelled, a limit that refuses an admission, and whether a statement failed
before it ran (`failed`) or only lost its answer (`lost`). -/
inductive Choice where
  | resolved (answer : Except ProposalError ResolvedAccount)
  | checked (answer : Except ProposalError CheckedPush)
  | clock (now : Time)
  | limited (write : ProposalWrite)
  | done
  | lost
  | failed

def exec (_pid : Nat) : (op : Op N) → Choice → Store N → Option (Res op × Store N)
  | .resolveAccount _, .resolved answer, w => some (answer, w)
  | .checkPush _ _ _, .checked answer, w => some (answer, w)
  | .now, .clock now, w => some (now, w)
  | .pullDeltaProposal accountId commitment, .done, w => some (w (accountId, commitment), w)
  | .pullDeltaProposal _ _, .failed, w => some (none, w)
  | .updateDeltaProposalIfStatus commitment proposal expected, .done, w =>
    some (.ok (updateIfStatus w commitment proposal expected).1,
      (updateIfStatus w commitment proposal expected).2)
  | .updateDeltaProposalIfStatus commitment proposal expected, .lost, w =>
    some (.error "connection lost", (updateIfStatus w commitment proposal expected).2)
  | .updateDeltaProposalIfStatus _ _ _, .failed, w => some (.error "statement failed", w)
  | .admitDeltaProposal commitment proposal, .done, w =>
    some (.ok (admitProposal w commitment proposal).1, (admitProposal w commitment proposal).2)
  | .admitDeltaProposal commitment proposal, .lost, w =>
    some (.error "connection lost", (admitProposal w commitment proposal).2)
  | .admitDeltaProposal _ _, .limited write, w => some (.ok write, w)
  | .admitDeltaProposal _ _, .failed, w => some (.error "statement failed", w)
  | .deleteDeltaProposal accountId commitment, .done, w =>
    some (.ok (), Function.update w (accountId, commitment) none)
  | .deleteDeltaProposal accountId commitment, .lost, w =>
    some (.error "connection lost", Function.update w (accountId, commitment) none)
  | .deleteDeltaProposal _ _, .failed, w => some (.error "statement failed", w)
  | _, _, _ => none

/-- The environment does nothing of its own. -/
inductive Act where
  deriving DecidableEq

def machine (N : Type) : Machine (Op N) Res (Store N) Choice Act where
  exec := exec
  act := nofun

/-- Any request may start at any time. -/
def anyRun (N : Type) : Guard (Op N) (Request N) (Store N) Choice Act := Guard.any

/-- The approvals of a status. -/
def ProposalStatus.approvals : ProposalStatus → List CosignerSignature
  | .pending _ _ sigs => sigs
  | .other _ => []

/-- The acknowledged approvals of each proposal since it was last deleted: those
whose conditional write answered that it committed, after which the handler
returns success. -/
def noteAcked : Note (Op N) (Store N) Choice (String × String → List CosignerSignature)
  | _, .updateDeltaProposalIfStatus commitment proposal expected, .done, w, acked =>
    if (updateIfStatus w commitment proposal expected).1 then
      Function.update acked (proposal.accountId, commitment)
        (proposal.status.approvals.getLast?.toList ++ acked (proposal.accountId, commitment))
    else acked
  | _, .deleteDeltaProposal accountId commitment, .done, _, acked
  | _, .deleteDeltaProposal accountId commitment, .lost, _, acked =>
    Function.update acked (accountId, commitment) []
  | _, _, _, _, acked => acked

end Guardian.Proposals
