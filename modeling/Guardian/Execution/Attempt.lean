import Guardian.Execution.Miden
import Guardian.Lib.Trace
import Guardian.Services.ExecuteProposal

/- One attempt at executing a proposal (`network/miden/execution/attempt.rs`):
   the signatures that count, the stored request reproduced without them and
   executed with them, and the transaction proved, sealed and sent.

   The calls of an attempt are those of the server, `Op`, and what it asks the
   executor, the prover, Guardian's signer and a node. Each of these answers as
   it likes. A chain view is one call, for the reads of `chain.rs`. -/
namespace Guardian

open Interleaving Service

/-! ## Calls -/

/-- What `execute_transaction` answers; a failure is mapped by
`execution_failure`. -/
inductive ExecutorAnswer (T : MidenTypes) where
  | unauthorized (summary : T.TransactionSummary)
  | executed (tx : ExecutedTransaction T)
  | failed (code : ExecutionFailureCode)

/-- What the prover answers. -/
inductive ProverAnswer (T : MidenTypes) where
  | proven (tx : ProvenTransaction T)
  | transient
  | refused

inductive AttemptOp (T : MidenTypes) where
  | server (o : Op)
  | genesis
  | chainView (tracked : List Nat)
  | execute (store : ExecutionDataStore T) (accountId : String) (reference : Nat)
      (inputs : ExecutionInputs T)
  | prove (inputs : T.TransactionInputs)
  /-- Guardian's key signs; the answer has the public key with it. -/
  | sign (scheme : SignatureScheme) (message : Word)
  /-- The encryption key is read and attested, and the inputs sealed under it. -/
  | seal (transactionId : Word) (inputs : T.TransactionInputs)
  | submit (proven : ProvenTransaction T) (sealed : SealedTransactionInputs T)

abbrev AttemptRes {T : MidenTypes} : AttemptOp T → Type
  | .server o => Res o
  | .genesis => Except ExecutionFailureCode Unit
  | .chainView _ => Except ExecutionFailureCode ChainView
  | .execute .. => ExecutorAnswer T
  | .prove _ => ProverAnswer T
  | .sign .. => Option (String × String)
  | .seal .. => Bool
  | .submit .. => Option SubmitOutcome

abbrev AttemptProc (T : MidenTypes) (ε : Type) := ExceptT ε (Prog (AttemptOp T) AttemptRes)

/-- A procedure of the server, as part of an attempt. -/
def server {T : MidenTypes} {ε α : Type} (x : Proc ε α) : AttemptProc T ε α :=
  .mk (Contract.embed AttemptOp.server (fun _ r => r) x.run)

/-- One call. -/
def ask {T : MidenTypes} {ε : Type} (o : AttemptOp T) : AttemptProc T ε (AttemptRes o) :=
  ExceptT.lift (Prog.op o)

/-- The attempt stops with a failure. -/
def stop {T : MidenTypes} {α : Type} (code : ExecutionFailureCode) : AttemptProc T Stop α :=
  throw (.failed code)

/-! ## Selection -/

/-- `ExecutionInput`. -/
structure ExecutionInput where
  stateJson : StateJson
  proposalPayload : Payload
  cosignerSignatures : List CosignerSignature
  deriving DecidableEq, Repr

section Selection
variable {T : MidenTypes} (M : Miden T)

/-- `proposal_tx_summary`. -/
def proposalTxSummary (payload : Payload) : Option (T.TransactionSummary) :=
  (M.txSummaryField payload).bind M.summaryFromJson

/-- `verified_advice`. -/
def verifiedAdvice (signature : CosignerSignature) (signer : String)
    (summary : T.TransactionSummary) : Option (Word × T.Advice) := do
  let approval := M.proposalSignature signature.signature
  let approvedBy ← M.verifyProposalSignature summary approval
  if !eqIgnoreAsciiCase approvedBy signer then none
  else
    let commitment ← M.wordFromHex signer
    let message := M.summaryCommitment summary
    match approval with
    | .falcon signature => M.buildSignatureAdviceEntry .falcon commitment message signature none
    | .ecdsa signature publicKey .raw =>
      M.buildSignatureAdviceEntry .ecdsa commitment message signature publicKey
    | .ecdsa signature publicKey .eip712 =>
      publicKey.bind (fun key => M.eip712SignatureAdvice summary key signature)

/-- The loop of `select`: the advice of the signatures that count, in order, and
how many are ignored. `seen` are the cosigners counted already. -/
def selectAdvice (cosigners : List String) (summary : T.TransactionSummary) :
    List CosignerSignature → List String → List (Word × T.Advice) × Nat
  | [], _ => ([], 0)
  | signature :: rest, seen =>
    let signer := signature.signerId.toLower
    if signer ∉ cosigners ∨ signer ∈ seen then
      let (advice, ignored) := selectAdvice cosigners summary rest seen
      (advice, ignored + 1)
    else
      match verifiedAdvice M signature signer summary with
      | some entry =>
        let (advice, ignored) := selectAdvice cosigners summary rest (signer :: seen)
        (entry :: advice, ignored)
      | none =>
        let (advice, ignored) := selectAdvice cosigners summary rest seen
        (advice, ignored + 1)

/-- `MidenSelected`. An account without a threshold is never ready: `required`
is `none` there. -/
structure MidenSelected (T : MidenTypes) where
  input : ExecutionInput
  account : T.Account
  summary : T.TransactionSummary
  required : Option Nat
  ignored : Nat
  advice : List (Word × T.Advice)
  guardian : Option String

/-- `SignatureSelection::is_ready`. -/
def MidenSelected.isReady (selected : MidenSelected T) : Bool :=
  selected.required.any (fun required => decide (required ≤ selected.advice.length))

/-- `select_signatures`. -/
def selectSignatures (input : ExecutionInput) : Option (MidenSelected T) := do
  let account ← M.accountFromJson input.stateJson
  let summary ← proposalTxSummary M input.proposalPayload
  let cosigners := (M.extractPubkeys account).map (·.toLower)
  let (advice, ignored) := selectAdvice M cosigners summary input.cosignerSignatures []
  return { input := input
           account := account
           summary := summary
           required := M.threshold account (M.proposalType input.proposalPayload)
           ignored := ignored
           advice := advice
           guardian := M.extractGuardianPublicKey account }

end Selection

/-! ## The attempt -/

/-- `MidenAttempt`, prepared. -/
structure MidenAttempt (T : MidenTypes) where
  account : T.Account
  request : StoredRequest T
  summary : T.TransactionSummary
  summaryPayload : Payload
  signatureAdvice : List (Word × T.Advice)
  requiresAck : Bool
  store : ExecutionDataStore T

/-- `GuardianAck`. -/
structure GuardianAck where
  scheme : SignatureScheme
  signatureHex : String
  publicKeyHex : String
  commitmentHex : String
  deriving DecidableEq, Repr

namespace MidenAttempt
variable {T : MidenTypes} (M : Miden T)

/-- `chain_tip`. -/
def chainTip : AttemptProc T Stop Nat := server (orFail (node .chainTip) (.failed .nodeUnavailable))

/-- `ensure_not_expired`. -/
def ensureNotExpired (expiration : Nat) : AttemptProc T Stop Unit := do
  let tip ← chainTip
  if expiration ≤ tip then stop .expirationReached else return ()

/-- The failure of `execution_inputs` in `prepare`. -/
def inputsFailure : RequestInputsError → ExecutionFailureCode
  | .invalid _ => .requestInvalid
  | .malformed => .requestCodec

/-- `prepare`. -/
def prepare (selected : MidenSelected T) : AttemptProc T Stop (MidenAttempt T) := do
  match StoredRequest.ofPayload M selected.input.proposalPayload with
  | .error code => stop code
  | .ok request =>
    match request.checkAgainst M selected.summary with
    | .error _ => stop .requestInvalid
    | .ok _ =>
      match ← ask .genesis with
      | .error code => stop code
      | .ok _ =>
        let tip ← chainTip
        if selected.summary.approvalExpirationBlock ≤ tip then stop .expirationReached
        else
          match request.executionInputs M selected.account [] with
          | .error e => stop (inputsFailure e)
          | .ok unsigned =>
            let blocks := unsigned.inputNotes.filterMap M.inputNoteBlock
            if blocks.any (fun block => decide (selected.summary.blockNumber < block)) then
              stop .bindingMismatch
            else
              match ← ask (.chainView (request.blockNumbers ++ blocks)) with
              | .error code => stop code
              | .ok view =>
                let store : ExecutionDataStore T := ⟨selected.account, view⟩
                match ← ask (.execute store (M.accountId selected.account) store.referenceBlock
                    unsigned) with
                | .failed code => stop code
                | .executed _ => stop .bindingMismatch
                | .unauthorized reproduced =>
                  if M.summaryCommitment reproduced ≠ M.summaryCommitment selected.summary then
                    stop .bindingMismatch
                  else
                    return { account := selected.account
                             request := request
                             summary := selected.summary
                             summaryPayload := M.summaryToJson reproduced
                             signatureAdvice := selected.advice
                             requiresAck := M.requiresGuardianAck
                               (M.proposalType selected.input.proposalPayload)
                             store := store }

variable (attempt : MidenAttempt T)

/-- The advice entry of Guardian's acknowledgment. -/
def ackAdvice (ack : GuardianAck) : Option (Word × T.Advice) := do
  let commitment ← M.wordFromHex ack.commitmentHex
  M.buildSignatureAdviceEntry ack.scheme commitment (M.summaryCommitment attempt.summary)
    ack.signatureHex (some ack.publicKeyHex)

/-- The signatures an execution attaches. -/
def advice (ack : Option GuardianAck) : Option (List (Word × T.Advice)) :=
  match ack with
  | none => some attempt.signatureAdvice
  | some ack => (attempt.ackAdvice M ack).map (fun entry => attempt.signatureAdvice ++ [entry])

/-- Whether the executed transaction has the notes of the signed summary. -/
def sameNotes (executed : ExecutedTransaction T) : Bool :=
  M.inputNotesCommitment (executed.inputNotes.map M.inputNoteCommitment) ==
      M.inputNotesCommitment (attempt.summary.inputNotes.map M.inputNoteCommitment) &&
    M.outputNotesCommitment (executed.outputNotes.map M.outputNoteCommitment) ==
      M.outputNotesCommitment (attempt.summary.outputNotes.map M.outputNoteCommitment)

/-- `execute`. -/
def execute (ack : Option GuardianAck) : AttemptProc T Stop (ExecutedTransaction T) := do
  match attempt.advice M ack with
  | none => stop .bindingMismatch
  | some advice =>
    match attempt.request.executionInputs M attempt.account advice with
    | .error _ => stop .requestCodec
    | .ok inputs =>
      match ← ask (.execute attempt.store (M.accountId attempt.account)
          attempt.store.referenceBlock inputs) with
      | .failed code => stop code
      | .unauthorized _ => stop .insufficientSignatures
      | .executed executed =>
        if attempt.sameNotes M executed then
          ensureNotExpired executed.expirationBlockNum
          return executed
        else stop .bindingMismatch

/-- The comparisons of `ensure_proves_the_executed_transaction`. -/
def isProofOf (executed : ExecutedTransaction T) (proven : ProvenTransaction T) : Bool :=
  proven.id M == executed.id M && proven.accountId == executed.accountId &&
    proven.finalStateCommitment == executed.finalAccountCommitment &&
    proven.refBlockNum == executed.blockHeader.blockNum &&
    proven.refBlockCommitment == executed.blockHeader.commitment &&
    proven.expirationBlockNum == executed.expirationBlockNum

/-- `prove`. A transient failure is retried while the tip has not reached the
expiration, which it does after `retries` of them. -/
def prove (executed : ExecutedTransaction T) : Nat → AttemptProc T Stop (ProvenTransaction T)
  | 0 => stop .expirationReached
  | retries + 1 => do
    match ← ask (.prove executed.txInputs) with
    | .refused => stop .provingFailed
    | .transient =>
      ensureNotExpired executed.expirationBlockNum
      prove executed retries
    | .proven proven =>
      if isProofOf M executed proven && M.verify proven then return proven
      else stop .provingFailed

/-- `seal`. -/
def sealInputs (executed : ExecutedTransaction T) (proven : ProvenTransaction T) :
    AttemptProc T Stop (SealedTransactionInputs T) := do
  if ← ask (.seal (proven.id M) executed.txInputs) then
    return ⟨proven.id M, executed.txInputs⟩
  else stop .sealingFailed

end MidenAttempt
end Guardian
