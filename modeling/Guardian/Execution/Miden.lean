import Guardian.Service

/- The data of a Miden execution (`server/src/network/miden/execution/`,
   `shared/src/request_envelope.rs`): the proposal's summary, its stored request,
   what the executor and the prover answer with, and what is sent.

   The types and functions of the miden crates are parameters, `MidenTypes` and
   `Miden`. Accessors are fields of the structures below, so a value reports its
   own fields. A `Word` is written as its hex text. -/
namespace Guardian

abbrev Word := Commitment

/-- Types of the miden crates that are only passed on. -/
structure MidenTypes where
  Account : Type
  AccountDelta : Type
  Note : Type
  InputNote : Type
  OutputNote : Type
  Script : Type
  PartialNote : Type
  Recipients : Type
  MerkleStore : Type
  Upgrade : Type
  Advice : Type
  TransactionInputs : Type
  Proof : Type

/-- `TransactionSummary`: what cosigners and Guardian sign. -/
structure TransactionSummary (AccountDelta InputNote OutputNote : Type) where
  accountDelta : AccountDelta
  inputNotes : List InputNote
  outputNotes : List OutputNote
  blockNumber : Nat
  blockCommitment : Word
  expirationDelta : Nat
  userParams : List Nat

abbrev MidenTypes.TransactionSummary (T : MidenTypes) : Type :=
  Guardian.TransactionSummary T.AccountDelta T.InputNote T.OutputNote

/-- `approval_expiration_block`: the first user parameter. -/
def TransactionSummary.approvalExpirationBlock {AccountDelta InputNote OutputNote : Type}
    (s : TransactionSummary AccountDelta InputNote OutputNote) : Nat := s.userParams.headD 0

inductive EcdsaMessageFormat where
  | raw
  | eip712
  deriving DecidableEq, Repr

inductive ProposalSignature where
  | falcon (signature : String)
  | ecdsa (signature : String) (publicKey : Option String) (format : EcdsaMessageFormat)
  deriving DecidableEq, Repr

structure TransactionRequestEnvelope where
  formatVersion : Nat
  protocolLine : String
  checksum : String
  bytes : String
  deriving DecidableEq, Repr

inductive ScriptTemplate (T : MidenTypes) where
  | none
  | custom (script : T.Script)
  | sendNotes (notes : List T.PartialNote)

/-- `StoredRequest`, less the fields no execution reads. -/
structure StoredRequest (T : MidenTypes) where
  blockNumbers : List Nat
  inputNotes : List T.Note
  inputNotesArgs : List (String × Option Word)
  explicitInputNotes : List (String × T.InputNote)
  scriptTemplate : ScriptTemplate T
  expectedOutputRecipients : T.Recipients
  adviceMap : List (Word × T.Advice)
  merkleStore : T.MerkleStore
  expirationDelta : Option Nat
  scriptArg : Option Word
  authArg : Option Word
  accountCodeUpgrade : Option T.Upgrade

/-- `TransactionArgs`. -/
structure TransactionArgs (T : MidenTypes) where
  noteArgs : List (String × Word)
  txScript : Option (T.Script × Word)
  authArgs : Option Word
  accountCodeUpgrade : Option T.Upgrade
  outputNoteRecipients : T.Recipients
  merkleStore : T.MerkleStore
  adviceMap : List (Word × T.Advice)

/-- `extend_advice_map`. -/
def TransactionArgs.extendAdviceMap {T : MidenTypes} (args : TransactionArgs T)
    (extra : List (Word × T.Advice)) : TransactionArgs T :=
  { args with adviceMap := args.adviceMap ++ extra }

/-- `ExecutionInputs`. -/
structure ExecutionInputs (T : MidenTypes) where
  txArgs : TransactionArgs T
  inputNotes : List T.InputNote

structure BlockHeader where
  blockNum : Nat
  commitment : Word
  deriving DecidableEq, Repr

/-- `ChainView`: the chain at one reference block, with the blocks that can be
authenticated against it. -/
structure ChainView where
  genesisCommitment : Word
  referenceHeader : BlockHeader
  blocks : List Nat
  deriving DecidableEq, Repr

/-- `ExecutionDataStore`: what the executor is answered from. -/
structure ExecutionDataStore (T : MidenTypes) where
  account : T.Account
  chain : ChainView

def ExecutionDataStore.referenceBlock {T : MidenTypes} (store : ExecutionDataStore T) : Nat :=
  store.chain.referenceHeader.blockNum

/-- `ExecutedTransaction`. -/
structure ExecutedTransaction (T : MidenTypes) where
  accountId : String
  initialAccountCommitment : Word
  finalAccountCommitment : Word
  inputNotes : List T.InputNote
  outputNotes : List T.OutputNote
  feeCommitment : Word
  blockHeader : BlockHeader
  expirationBlockNum : Nat
  txInputs : T.TransactionInputs

/-- `ProvenTransaction`; of its notes it has the commitments. -/
structure ProvenTransaction (T : MidenTypes) where
  accountId : String
  initialStateCommitment : Word
  finalStateCommitment : Word
  inputNotes : List Word
  outputNotes : List Word
  feeCommitment : Word
  refBlockNum : Nat
  refBlockCommitment : Word
  expirationBlockNum : Nat
  proof : T.Proof

/-- `SealedTransactionInputs`: sealed for one transaction. -/
structure SealedTransactionInputs (T : MidenTypes) where
  transactionId : Word
  inputs : T.TransactionInputs

/-- The functions of the miden crates and the codecs. -/
structure Miden (T : MidenTypes) where
  accountFromJson : StateJson → Option T.Account
  accountId : T.Account → String
  accountCommitment : T.Account → Word
  extractPubkeys : T.Account → List String
  extractGuardianPublicKey : T.Account → Option String
  /-- `ThresholdedTransaction::threshold` of the proposal type. -/
  threshold : T.Account → Option String → Option Nat
  /-- `ThresholdedTransaction::requires_guardian_ack` of the proposal type. -/
  requiresGuardianAck : Option String → Bool
  proposalType : Payload → Option String
  /-- `payload.get("tx_summary")` and `payload.get("transaction_request")`. -/
  txSummaryField : Payload → Option Payload
  transactionRequestField : Payload → Option Payload
  summaryFromJson : Payload → Option (T.TransactionSummary)
  summaryToJson : T.TransactionSummary → Payload
  summaryCommitment : T.TransactionSummary → Word
  envelopeFromJson : Payload → Option TransactionRequestEnvelope
  base64Decode : String → Option (List UInt8)
  checksumOf : List UInt8 → String
  /-- `TransactionRequest::read_from_bytes` of the pinned client. -/
  clientReads : List UInt8 → Bool
  /-- `StoredRequest::read_from`, with the bytes it leaves. -/
  readFrom : List UInt8 → Option (StoredRequest T × List UInt8)
  emptyWord : Word
  wordFromHex : String → Option Word
  noteId : T.Note → String
  inputNoteBlock : T.InputNote → Option Nat
  /-- `InputNotes::new`. -/
  newInputNotes : List T.InputNote → Option (List T.InputNote)
  sendNotesScript : T.Account → List T.PartialNote → Option Nat → Option (T.Script × Word)
  expirationScript : Nat → T.Script × Word
  inputNoteCommitment : T.InputNote → Word
  outputNoteCommitment : T.OutputNote → Word
  inputNotesCommitment : List Word → Word
  outputNotesCommitment : List Word → Word
  /-- `TransactionId::new`, over the initial and final account, the notes and the
  fee. -/
  transactionId : Word → Word → Word → Word → Word → Word
  /-- The form `CosignerSignature` stores. -/
  proposalSignature : String → ProposalSignature
  verifyProposalSignature : T.TransactionSummary → ProposalSignature → Option String
  /-- `build_signature_advice_entry`, the signature parsed. -/
  buildSignatureAdviceEntry : SignatureScheme → Word → Word → String → Option String →
    Option (Word × T.Advice)
  eip712SignatureAdvice : T.TransactionSummary → String → String → Option (Word × T.Advice)
  /-- `TransactionVerifier::verify`. -/
  verify : ProvenTransaction T → Bool

variable {T : MidenTypes}

/-- `ExecutedTransaction::id`. -/
def ExecutedTransaction.id (M : Miden T) (tx : ExecutedTransaction T) : Word :=
  M.transactionId tx.initialAccountCommitment tx.finalAccountCommitment
    (M.inputNotesCommitment (tx.inputNotes.map M.inputNoteCommitment))
    (M.outputNotesCommitment (tx.outputNotes.map M.outputNoteCommitment)) tx.feeCommitment

/-- `ProvenTransaction::id`. -/
def ProvenTransaction.id (M : Miden T) (tx : ProvenTransaction T) : Word :=
  M.transactionId tx.initialStateCommitment tx.finalStateCommitment
    (M.inputNotesCommitment tx.inputNotes) (M.outputNotesCommitment tx.outputNotes)
    tx.feeCommitment

/-! ## The stored request -/

/-- `ENVELOPE_FORMAT_VERSION`. -/
def envelopeFormatVersion : Nat := 1

/-- `PROTOCOL_LINE`. -/
def currentProtocolLine : String := "0.17"

/-- `MAX_DECLARED_BLOCKS`. -/
def maxDeclaredBlocks : Nat := 16

/-- `verified_bytes`, with the failure code of the rejection. -/
def TransactionRequestEnvelope.verifiedBytes (M : Miden T) (e : TransactionRequestEnvelope) :
    Except ExecutionFailureCode (List UInt8) :=
  match M.base64Decode e.bytes with
  | none => .error .requestCodec
  | some bytes =>
    if M.checksumOf bytes ≠ e.checksum then .error .requestCodec
    else if e.formatVersion ≠ envelopeFormatVersion then .error .requestCodec
    else if e.protocolLine ≠ currentProtocolLine then .error .protocolMismatch
    else .ok bytes

inductive RequestInvalidReason where
  | boundBlockNotDeclared
  | tooManyDeclaredBlocks
  | authArgsMissing
  | approvalExpirationMissing
  | inputNotesNotPinned
  deriving DecidableEq, Repr

inductive RequestInputsError where
  | invalid (reason : RequestInvalidReason)
  | malformed
  deriving DecidableEq, Repr

namespace StoredRequest
variable (M : Miden T)

/-- `StoredRequest::decode`: the client's own decoding and this one agree that
the bytes are a request and nothing more. -/
def decode (bytes : List UInt8) : Option (StoredRequest T) :=
  if M.clientReads bytes then
    match M.readFrom bytes with
    | some (request, []) => some request
    | _ => none
  else none

/-- The request a proposal stores: its envelope, verified and decoded. -/
def ofPayload (payload : Payload) : Except ExecutionFailureCode (StoredRequest T) :=
  match (M.transactionRequestField payload).bind M.envelopeFromJson with
  | none => .error .requestCodec
  | some envelope =>
    match envelope.verifiedBytes M with
    | .error code => .error code
    | .ok bytes =>
      match decode M bytes with
      | none => .error .requestCodec
      | some request => .ok request

/-- The pinned note a request note names. -/
def pinned (request : StoredRequest T) (note : T.Note) : Option T.InputNote :=
  (request.explicitInputNotes.find? (fun entry => entry.1 == M.noteId note)).map (·.2)

/-- `check_against`. -/
def checkAgainst (request : StoredRequest T) (summary : T.TransactionSummary) :
    Except RequestInvalidReason Unit :=
  if summary.blockNumber ∉ request.blockNumbers then .error .boundBlockNotDeclared
  else if maxDeclaredBlocks < request.blockNumbers.length then .error .tooManyDeclaredBlocks
  else if !(request.authArg.any (fun authArg => decide (authArg ≠ M.emptyWord) &&
      request.adviceMap.any (fun entry => entry.1 == authArg))) then .error .authArgsMissing
  else if summary.approvalExpirationBlock = 0 then .error .approvalExpirationMissing
  else if request.inputNotes.any (fun note => (request.pinned M note).isNone) then
    .error .inputNotesNotPinned
  else .ok ()

/-- `transaction_script`. -/
def transactionScript (request : StoredRequest T) (account : T.Account) :
    Except RequestInputsError (Option (T.Script × Option Word)) :=
  let delta := request.expirationDelta.filter (· ≠ 0)
  match request.scriptTemplate with
  | .custom script => .ok (some (script, none))
  | .sendNotes notes =>
    match M.sendNotesScript account notes delta with
    | some (script, args) => .ok (some (script, some args))
    | none => .error .malformed
  | .none => .ok (delta.map (fun delta =>
      ((M.expirationScript delta).1, some (M.expirationScript delta).2)))

/-- `execution_inputs`. -/
def executionInputs (request : StoredRequest T) (account : T.Account)
    (extraAdvice : List (Word × T.Advice)) : Except RequestInputsError (ExecutionInputs T) := do
  let notes ← match request.inputNotes.mapM (request.pinned M) with
    | some notes => pure notes
    | none => throw (.invalid .inputNotesNotPinned)
  let inputNotes ← match M.newInputNotes notes with
    | some inputNotes => pure inputNotes
    | none => throw .malformed
  let script ← request.transactionScript M account
  let txArgs : TransactionArgs T :=
    { noteArgs := request.inputNotesArgs.filterMap (fun (note, args) => args.map (note, ·))
      txScript := script.map (fun (script, templateArgs) =>
        (script, (templateArgs.or request.scriptArg).getD M.emptyWord))
      authArgs := request.authArg
      accountCodeUpgrade := request.accountCodeUpgrade
      outputNoteRecipients := request.expectedOutputRecipients
      merkleStore := request.merkleStore
      adviceMap := request.adviceMap }
  return ⟨txArgs.extendAdviceMap extraAdvice, inputNotes⟩

/-- Signatures are added to the advice and change nothing else. -/
theorem executionInputs_extra {M : Miden T} {request : StoredRequest T} {account : T.Account}
    {extraAdvice : List (Word × T.Advice)} {unsigned inputs : ExecutionInputs T}
    (hu : request.executionInputs M account [] = .ok unsigned)
    (hi : request.executionInputs M account extraAdvice = .ok inputs) :
    inputs.inputNotes = unsigned.inputNotes ∧
      inputs.txArgs = unsigned.txArgs.extendAdviceMap extraAdvice := by
  unfold executionInputs at hu hi
  cases hn : request.inputNotes.mapM (request.pinned M) with
  | none => simp [hn, bind, Except.bind, throw, throwThe, MonadExceptOf.throw] at hu
  | some notes =>
    cases hin : M.newInputNotes notes with
    | none => simp [hn, hin, bind, Except.bind, throw, throwThe, MonadExceptOf.throw, pure,
        Except.pure] at hu
    | some inputNotes =>
      cases hs : request.transactionScript M account with
      | error e => simp [hn, hin, hs, bind, Except.bind, pure, Except.pure] at hu
      | ok script =>
        simp only [hn, hin, hs, bind, Except.bind, pure, Except.pure, Except.ok.injEq] at hu hi
        subst hu hi
        simp [TransactionArgs.extendAdviceMap]

end StoredRequest
end Guardian
