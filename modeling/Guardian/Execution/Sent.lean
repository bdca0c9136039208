import Guardian.Execution.Worker
import Guardian.Lib.Json
import Guardian.Safety.LandingCalls

/- What Guardian sends is what was signed. The links are made in different
   places: selection and acknowledgment sign the proposal's summary, preparation
   reproduces it, execution and the worker compare notes and final account,
   proving compares the proof with what was executed, and the boundary records
   the proven transaction. `SentIsSigned` puts them together at the moment a
   transaction is handed to a node, over the history of the worker's calls.

   The node and the prover answer as they like. Of the executor it is relied on
   that it executes what it is asked, and that a transaction it reports as
   unauthorized, run again with signatures over the summary it returned, is the
   transaction of that summary (`Executor.Faithful`). -/
namespace Guardian

open Interleaving Service

variable {T : MidenTypes}

/-! ## What is relied on -/

/-- The entry is a signature over the summary, keyed as the account's
authentication reads it. -/
def Miden.Signs (M : Miden T) (s : T.TransactionSummary) (entry : Word × T.Advice) : Prop :=
  (∃ scheme commitment signature publicKey, M.buildSignatureAdviceEntry scheme commitment
    (M.summaryCommitment s) signature publicKey = some entry) ∨
  ∃ publicKey signature, M.eip712SignatureAdvice s publicKey signature = some entry

/-- The transaction executor: what it may answer, and the summary a transaction
it executed was authorized by. -/
structure Executor (T : MidenTypes) where
  runs : ExecutionDataStore T → String → Nat → ExecutionInputs T → ExecutorAnswer T → Prop
  summaryOf : ExecutedTransaction T → T.TransactionSummary

structure Executor.Faithful (X : Executor T) (M : Miden T) : Prop where
  /-- The account and the block are those of the data store. -/
  account : ∀ {store id inputs tx}, X.runs store id store.referenceBlock inputs (.executed tx) →
    tx.initialAccountCommitment = M.accountCommitment store.account
  block : ∀ {store id inputs tx}, X.runs store id store.referenceBlock inputs (.executed tx) →
    tx.blockHeader = store.chain.referenceHeader
  /-- A commitment is printed in lower case. -/
  printed : ∀ {store id reference inputs tx}, X.runs store id reference inputs (.executed tx) →
    tx.finalAccountCommitment.toLower = tx.finalAccountCommitment
  authorized : ∀ {store id reference inputs s extra tx},
    X.runs store id reference inputs (.unauthorized s) → (∀ entry ∈ extra, M.Signs s entry) →
    X.runs store id reference
      ⟨inputs.txArgs.extendAdviceMap extra, inputs.inputNotes⟩ (.executed tx) → X.summaryOf tx = s

structure Miden.CollisionFree (M : Miden T) : Prop where
  summary : ∀ {s s'}, M.summaryCommitment s = M.summaryCommitment s' → s = s'
  transaction : ∀ {a b c d e a' b' c' d' e'},
    M.transactionId a b c d e = M.transactionId a' b' c' d' e' →
    a = a' ∧ b = b' ∧ c = c' ∧ d = d' ∧ e = e'
  inputNotes : ∀ {l l'}, M.inputNotesCommitment l = M.inputNotesCommitment l' → l = l'
  outputNotes : ∀ {l l'}, M.outputNotesCommitment l = M.outputNotesCommitment l' → l = l'

/-- The network client and the executor decode documents alike, and a summary is
read back as it was written. -/
structure Miden.Reads (M : Miden T) (net : Network) : Prop where
  account : ∀ {json a head}, M.accountFromJson json = some a → net.getStateHead json = some head →
    head.commitment = M.accountCommitment a
  summary : ∀ s, M.summaryFromJson (M.summaryToJson s) = some s

/-- A state row holds the commitment of its document. -/
def stateRowsRead (net : Network) : (o : Op) → Res o → Prop
  | .query .pullState, r => ∀ st, r = some (some st) → net.IsState st.stateJson st.commitment
  | _, _ => True

/-! ## What is sent -/

/-- What a transaction that is sent came from. -/
structure Sending (T : MidenTypes) where
  proposal : DeltaObject
  summary : T.TransactionSummary
  account : T.Account
  request : StoredRequest T
  store : ExecutionDataStore T
  /-- The cosigners' signatures and Guardian's acknowledgment, as advice. -/
  approvals : List (Word × T.Advice)
  ackAdvice : List (Word × T.Advice)
  inputs : ExecutionInputs T
  executed : ExecutedTransaction T
  admission : CandidateAdmission

/-- Everything a transaction handed to a node is bound to. -/
structure SentIsSigned (M : Miden T) (X : Executor T) (proposalId : String)
    (h : History (AttemptOp T) AttemptRes) (proven : ProvenTransaction T)
    (sealed : SealedTransactionInputs T) (s : Sending T) : Prop where
  proposal : ⟨.server (.query (.pullDeltaProposal proposalId)), some (some s.proposal)⟩ ∈ h
  summary : proposalTxSummary M s.proposal.deltaPayload = some s.summary
  -- produced from the stored request
  request : StoredRequest.ofPayload M s.proposal.deltaPayload = .ok s.request
  inputs : s.request.executionInputs M s.account (s.approvals ++ s.ackAdvice) = .ok s.inputs
  executed : ⟨.execute s.store (M.accountId s.account) s.store.referenceBlock s.inputs,
    .executed s.executed⟩ ∈ h
  proves : proven.id M = s.executed.id M ∧ M.verify proven = true
  inputsSealed : sealed = ⟨proven.id M, s.executed.txInputs⟩
  -- authorized by the signed summary
  authorized : X.summaryOf s.executed = s.summary
  threshold : ∃ required, M.threshold s.account (M.proposalType s.proposal.deltaPayload) =
    some required ∧ required ≤ s.approvals.length
  approved : ∀ entry ∈ s.approvals, ∃ signature ∈ Execution.cosignerSigs s.proposal,
    verifiedAdvice M signature signature.signerId.toLower s.summary = some entry
  acknowledged : ∃ scheme ack, ⟨.sign scheme (M.summaryCommitment s.summary), some ack⟩ ∈ h
  consumes : proven.inputNotes = s.summary.inputNotes.map M.inputNoteCommitment
  creates : proven.outputNotes = s.summary.outputNotes.map M.outputNoteCommitment
  -- as recorded before it was sent
  admitted : ⟨.server (.commit (.admitExecutionCandidate s.admission)), some .admitted⟩ ∈ h
  reserved : s.admission.evidence.baseCommitment = s.proposal.prevCommitment
  base : proven.initialStateCommitment = s.admission.evidence.baseCommitment
  post : proven.finalStateCommitment = s.admission.evidence.expectedCommitment
  transactionId : proven.id M = s.admission.evidence.transactionId
  referenceBlock : proven.refBlockNum = s.admission.evidence.referenceBlock
  expirationBlock : proven.expirationBlockNum = s.admission.evidence.expirationBlock

/-- The answers a worker may get, and what is demanded when it sends. -/
def sendingContract (net : Network) (M : Miden T) (X : Executor T) (proposalId : String) :
    Contract (AttemptOp T) AttemptRes where
  allows
    | .server o, r => stateRowsRead net o r
    | .execute store id reference inputs, answer => X.runs store id reference inputs answer
    | _, _ => True
  demands
    | h, .submit proven sealed => ∃ s, SentIsSigned M X proposalId h proven sealed s
    | _, _ => True

/-! ## Selection -/

section Selection
variable {M : Miden T}

/-- What counts is a cosigner's signature over the summary. -/
theorem mem_selectAdvice {cosigners : List String} {summary : T.TransactionSummary}
    {signatures : List CosignerSignature} {seen : List String} {entry : Word × T.Advice}
    (h : entry ∈ (selectAdvice M cosigners summary signatures seen).1) :
    ∃ signature ∈ signatures,
      verifiedAdvice M signature signature.signerId.toLower summary = some entry := by
  induction signatures generalizing seen with
  | nil => cases h
  | cons signature rest ih =>
    have htail : ∀ {seen}, entry ∈ (selectAdvice M cosigners summary rest seen).1 →
        ∃ signature' ∈ signature :: rest,
          verifiedAdvice M signature' signature'.signerId.toLower summary = some entry := by
      intro seen hmem
      obtain ⟨s, hs, hv⟩ := ih hmem
      exact ⟨s, .tail _ hs, hv⟩
    simp only [selectAdvice] at h
    split at h
    · exact htail h
    · split at h
      · next found hv =>
        rcases List.mem_cons.mp h with rfl | h
        · exact ⟨signature, List.mem_cons_self, hv⟩
        · exact htail h
      · exact htail h

/-- A cosigner's advice signs the summary it was verified over. -/
theorem signs_of_verifiedAdvice {signature : CosignerSignature} {signer : String}
    {summary : T.TransactionSummary} {entry : Word × T.Advice}
    (h : verifiedAdvice M signature signer summary = some entry) : M.Signs summary entry := by
  unfold verifiedAdvice at h
  simp only [Option.bind_eq_bind, Option.bind_eq_some_iff] at h
  obtain ⟨approvedBy, _, h⟩ := h
  split at h
  · cases h
  · obtain ⟨commitment, _, h⟩ := Option.bind_eq_some_iff.mp h
    split at h
    · exact .inl ⟨_, _, _, _, h⟩
    · exact .inl ⟨_, _, _, _, h⟩
    · obtain ⟨key, _, h⟩ := Option.bind_eq_some_iff.mp h
      exact .inr ⟨_, _, h⟩

/-- What a selection holds. -/
structure Selected (M : Miden T) (input : ExecutionInput) (selected : MidenSelected T) : Prop where
  ofInput : selected.input = input
  account : M.accountFromJson input.stateJson = some selected.account
  summary : proposalTxSummary M input.proposalPayload = some selected.summary
  required : selected.required = M.threshold selected.account (M.proposalType input.proposalPayload)
  advice : ∀ entry ∈ selected.advice, ∃ signature ∈ input.cosignerSignatures,
    verifiedAdvice M signature signature.signerId.toLower selected.summary = some entry

theorem selected_of_selectSignatures {input : ExecutionInput} {selected : MidenSelected T}
    (h : selectSignatures M input = some selected) : Selected M input selected := by
  unfold selectSignatures at h
  simp only [Option.bind_eq_bind, Option.bind_eq_some_iff] at h
  obtain ⟨account, haccount, summary, hsummary, h⟩ := h
  cases h
  exact ⟨rfl, haccount, hsummary, rfl, fun entry hentry => mem_selectAdvice hentry⟩

end Selection

/-! ## The attempt -/

section Steps
variable {net : Network} {cfg : Config} {M : Miden T} {X : Executor T} {proposalId : String}
  {job : ExecutionJob} {h : History (AttemptOp T) AttemptRes} {ε α : Type}

/-- Nothing is demanded of a call of the server. -/
theorem returns_server {x : Proc ε α} {Q : α → History (AttemptOp T) AttemptRes → Prop}
    (hQ : ∀ a h', h <:+ h' → Q a h') :
    (sendingContract net M X proposalId).Returns (server x) Q h :=
  Contract.Meets.embed (fun _ _ => trivial) fun _ h' hs a _ => hQ a h' hs

theorem returns_stop {code : ExecutionFailureCode}
    {Q : α → History (AttemptOp T) AttemptRes → Prop} :
    (sendingContract net M X proposalId).Returns (stop code) Q h := Contract.Returns.throw' _

/-- A state that is read is the state of its commitment. -/
theorem returns_pullState (e : ε) : (sendingContract net M X proposalId).Returns
    (server (pullState e)) (fun st _ => net.IsState st.stateJson st.commitment) h := by
  refine ⟨trivial, fun r hr => ?_⟩
  cases r with
  | none => rintro _ ⟨⟩
  | some found =>
    cases found with
    | none => rintro _ ⟨⟩
    | some st =>
      rintro _ ⟨⟩
      exact hr st rfl

/-- An attempt that reproduced its summary. -/
structure Prepared (M : Miden T) (X : Executor T) (selected : MidenSelected T)
    (attempt : MidenAttempt T) (reproduced : T.TransactionSummary) : Prop where
  account : attempt.account = selected.account
  storeAccount : attempt.store.account = selected.account
  request : StoredRequest.ofPayload M selected.input.proposalPayload = .ok attempt.request
  summary : attempt.summary = selected.summary
  signatureAdvice : attempt.signatureAdvice = selected.advice
  payload : attempt.summaryPayload = M.summaryToJson reproduced
  commitment : M.summaryCommitment reproduced = M.summaryCommitment selected.summary
  unsigned : ∃ unsigned, attempt.request.executionInputs M attempt.account [] = .ok unsigned ∧
    X.runs attempt.store (M.accountId attempt.account) attempt.store.referenceBlock unsigned
      (.unauthorized reproduced)

theorem returns_prepare (selected : MidenSelected T) :
    (sendingContract net M X proposalId).Returns (MidenAttempt.prepare M selected)
      (fun attempt _ => ∃ reproduced, Prepared M X selected attempt reproduced) h := by
  unfold MidenAttempt.prepare
  split
  · exact returns_stop
  next request hrequest =>
  split
  · exact returns_stop
  refine .bind' (.op' trivial fun answer _ => ?_)
  split
  · exact returns_stop
  refine .bind' (returns_server fun tip h' _ => ?_)
  split
  · exact returns_stop
  split
  · exact returns_stop
  next unsigned hunsigned =>
  simp only
  split
  · exact returns_stop
  refine .bind' (.op' trivial fun answer _ => ?_)
  split
  · exact returns_stop
  next view =>
  refine .bind' (.op' trivial fun answer hruns => ?_)
  split
  · exact returns_stop
  · exact returns_stop
  next reproduced =>
  split
  · exact returns_stop
  next hcommitment =>
  exact .pure' ⟨reproduced, rfl, rfl, hrequest, rfl, rfl, rfl, not_not.mp hcommitment, unsigned,
    hunsigned, hruns⟩

/-- A transaction that was executed with the notes of the summary. -/
structure Executed (M : Miden T) (X : Executor T) (attempt : MidenAttempt T)
    (advice : List (Word × T.Advice)) (inputs : ExecutionInputs T)
    (executed : ExecutedTransaction T) : Prop where
  from_request : attempt.request.executionInputs M attempt.account advice = .ok inputs
  runs : X.runs attempt.store (M.accountId attempt.account) attempt.store.referenceBlock inputs
    (.executed executed)
  notes : attempt.sameNotes M executed = true

theorem returns_execute (attempt : MidenAttempt T) (ack : Option GuardianAck) :
    (sendingContract net M X proposalId).Returns (attempt.execute M ack)
      (fun executed h' => ∃ advice inputs, attempt.advice M ack = some advice ∧
        Executed M X attempt advice inputs executed ∧
        ⟨.execute attempt.store (M.accountId attempt.account) attempt.store.referenceBlock inputs,
          .executed executed⟩ ∈ h') h := by
  unfold MidenAttempt.execute
  split
  · exact returns_stop
  next advice hadvice =>
  split
  · exact returns_stop
  next inputs hinputs =>
  refine .bind' (.op' trivial fun answer hruns => ?_)
  split
  · exact returns_stop
  · exact returns_stop
  next executed =>
  split
  swap
  · exact returns_stop
  next hnotes =>
  refine .bind' (.bind' (returns_server fun tip h' hs => ?_))
  split
  · exact returns_stop
  · exact .pure' (.pure' ⟨advice, inputs, hadvice, ⟨hinputs, hruns, hnotes⟩,
      hs.subset List.mem_cons_self⟩)

theorem returns_prove (executed : ExecutedTransaction T) (retries : Nat) :
    (sendingContract net M X proposalId).Returns (MidenAttempt.prove M executed retries)
      (fun proven _ => MidenAttempt.isProofOf M executed proven = true ∧
        M.verify proven = true) h := by
  induction retries generalizing h with
  | zero => exact returns_stop
  | succ retries ih =>
    unfold MidenAttempt.prove
    refine .bind' (.op' trivial fun answer _ => ?_)
    split
    · exact returns_stop
    · refine .bind' (.bind' (returns_server fun tip h' _ => ?_))
      split
      · exact returns_stop
      · exact .pure' ih
    · next proven =>
      split
      · next hproof => exact .pure' (Bool.and_eq_true_iff.mp hproof)
      · exact returns_stop

theorem returns_sealInputs (executed : ExecutedTransaction T) (proven : ProvenTransaction T) :
    (sendingContract net M X proposalId).Returns (MidenAttempt.sealInputs M executed proven)
      (fun sealed _ => sealed = ⟨proven.id M, executed.txInputs⟩) h := by
  unfold MidenAttempt.sealInputs
  refine .bind' (.op' trivial fun answer _ => ?_)
  split
  · exact .pure' rfl
  · exact returns_stop

/-- The reproduced summary leads on from the stored state, and Guardian has
signed it. -/
theorem returns_acknowledge (currentState : StateObject) (attempt : MidenAttempt T) :
    (sendingContract net M X proposalId).Returns
      (Execution.acknowledge net M job currentState attempt)
      (fun acknowledged h' => net.verifyAndApplyDelta currentState.commitment
          currentState.stateJson attempt.summaryPayload = some acknowledged.applied ∧
        ∃ summary ack, M.summaryFromJson attempt.summaryPayload = some summary ∧
          ⟨.sign job.scheme (M.summaryCommitment summary), some ack⟩ ∈ h') h := by
  unfold Execution.acknowledge
  split
  · exact returns_stop
  next applied happlied =>
  split
  · exact returns_stop
  next summary hsummary =>
  refine .bind' (.op' trivial fun answer _ => ?_)
  split
  · exact returns_stop
  next ackSig ackPubkey _ =>
  refine .bind' (returns_server fun now h' hs =>
    .pure' ⟨happlied, summary, (ackSig, ackPubkey), hsummary, ?_⟩)
  exact hs.subset List.mem_cons_self

/-- What is known of an attempt that has reached the boundary. -/
structure Reached (net : Network) (M : Miden T) (X : Executor T) (selected : MidenSelected T)
    (h : History (AttemptOp T) AttemptRes) (reached : Approached T)
    (reproduced : T.TransactionSummary) (ack : Option GuardianAck)
    (advice : List (Word × T.Advice)) (inputs : ExecutionInputs T)
    (executed : ExecutedTransaction T) : Prop where
  prepared : Prepared M X selected reached.attempt reproduced
  advice_eq : reached.attempt.advice M ack = some advice
  execution : Executed M X reached.attempt advice inputs executed
  executes : ⟨.execute reached.attempt.store (M.accountId reached.attempt.account)
    reached.attempt.store.referenceBlock inputs, .executed executed⟩ ∈ h
  applied : ∃ prev json, net.verifyAndApplyDelta prev json reached.attempt.summaryPayload =
    some reached.applied
  final : eqIgnoreAsciiCase executed.finalAccountCommitment reached.applied.commitment = true
  proof : MidenAttempt.isProofOf M executed reached.proven = true
  verified : M.verify reached.proven = true
  sealed_eq : reached.sealed = ⟨reached.proven.id M, executed.txInputs⟩
  signed : ∃ scheme summary ack, M.summaryFromJson reached.attempt.summaryPayload = some summary ∧
    ⟨.sign scheme (M.summaryCommitment summary), some ack⟩ ∈ h

/-- Longer histories know no less. -/
theorem Reached.mono {selected : MidenSelected T} {reached : Approached T}
    {reproduced : T.TransactionSummary} {ack : Option GuardianAck}
    {advice : List (Word × T.Advice)} {inputs : ExecutionInputs T}
    {executed : ExecutedTransaction T} {h' : History (AttemptOp T) AttemptRes}
    (hr : Reached net M X selected h reached reproduced ack advice inputs executed)
    (hs : h <:+ h') : Reached net M X selected h' reached reproduced ack advice inputs executed := by
  obtain ⟨scheme, summary, signature, hsummary, hsign⟩ := hr.signed
  exact { hr with
    executes := hs.subset hr.executes
    signed := ⟨scheme, summary, signature, hsummary, hs.subset hsign⟩ }

theorem returns_proveAcknowledged {selected : MidenSelected T} {attempt : MidenAttempt T}
    {reproduced : T.TransactionSummary} {acknowledged : AcknowledgedDelta} {prev : Commitment}
    {json : StateJson} (proverRetries : Nat) (hprepared : Prepared M X selected attempt reproduced)
    (happlied : net.verifyAndApplyDelta prev json attempt.summaryPayload =
      some acknowledged.applied)
    (hsigned : ∃ scheme summary ack, M.summaryFromJson attempt.summaryPayload = some summary ∧
      ⟨.sign scheme (M.summaryCommitment summary), some ack⟩ ∈ h) :
    (sendingContract net M X proposalId).Returns
      (Execution.proveAcknowledged cfg M job proverRetries attempt acknowledged)
      (fun reached h' => ∃ ack advice inputs executed,
        Reached net M X selected h' reached reproduced ack advice inputs executed) h := by
  unfold Execution.proveAcknowledged
  refine .seq (returns_execute attempt _) fun executed h₁ hs₁ hexec => ?_
  obtain ⟨advice, inputs, hadvice, hexecuted, hmem⟩ := hexec
  split
  · exact returns_stop
  next hfinal =>
  split
  · exact returns_stop
  refine .seq (returns_server fun _ _ _ => trivial) fun _ h₂ hs₂ _ => ?_
  refine .seq (returns_prove executed proverRetries) fun proven h₃ hs₃ hproof => ?_
  refine .seq (returns_server fun _ _ _ => trivial) fun _ h₄ hs₄ _ => ?_
  refine .seq (returns_sealInputs executed proven) fun sealed h₅ hs₅ hsealed => ?_
  refine .seq (returns_server fun _ _ _ => trivial) fun _ h₆ hs₆ _ => ?_
  refine .seq (returns_server fun _ _ _ => trivial) fun _ h₇ hs₇ _ => ?_
  have hs : h₁ <:+ h₇ := ((((hs₂.trans hs₃).trans hs₄).trans hs₅).trans hs₆).trans hs₇
  obtain ⟨scheme, summary, signature, hsummary, hsign⟩ := hsigned
  refine .pure' ⟨_, advice, inputs, executed, hprepared, hadvice, hexecuted, hs.subset hmem,
    ⟨prev, json, happlied⟩, ?_, hproof.1, hproof.2, hsealed, scheme, summary, signature, hsummary,
    (hs₁.trans hs).subset hsign⟩
  simpa using hfinal

theorem returns_approachBoundary (proverRetries : Nat) (selected : MidenSelected T) :
    (sendingContract net M X proposalId).Returns
      (Execution.approachBoundary net cfg M job proverRetries selected)
      (fun reached h' => ∃ reproduced ack advice inputs executed,
        Reached net M X selected h' reached reproduced ack advice inputs executed) h := by
  unfold Execution.approachBoundary
  refine .bind' (returns_server fun _ h₁ _ => .bind' (returns_server fun currentState h₂ _ => ?_))
  split
  · exact returns_stop
  refine .bind' (returns_server fun _ h₃ _ => ?_)
  refine .seq (returns_prepare selected) fun attempt h₄ _ hprepared => ?_
  obtain ⟨reproduced, hprepared⟩ := hprepared
  refine .bind' (returns_server fun _ h₅ _ => ?_)
  refine .seq (returns_acknowledge currentState attempt) fun acknowledged h₆ _ hack => ?_
  obtain ⟨happlied, summary, signature, hsummary, hsign⟩ := hack
  refine .seq (returns_server fun _ _ _ => trivial) fun _ h₇ hs₇ _ => ?_
  refine (returns_proveAcknowledged proverRetries hprepared happlied ⟨_, summary, signature,
    hsummary, hs₇.subset hsign⟩).mono fun reached h₈ hr => ?_
  exact ⟨reproduced, hr⟩

/-- The evidence is recorded when the boundary is crossed. -/
theorem returns_crossBoundary (applied : AppliedState) (acknowledged : DeltaObject)
    (referenceBlock : Nat) :
    (sendingContract net M X proposalId).Returns
      (server (Worker.crossBoundary cfg job applied acknowledged referenceBlock))
      (fun _ h' => ∃ admission : CandidateAdmission,
        admission.evidence = Worker.evidence job applied referenceBlock ∧
        ⟨.server (.commit (.admitExecutionCandidate admission)), some .admitted⟩ ∈ h') h := by
  refine ⟨trivial, fun now _ => ⟨trivial, fun _ _ => ⟨trivial, fun answer _ => ?_⟩⟩⟩
  cases answer with
  | none => rintro _ ⟨⟩
  | some written =>
    cases written with
    | admitted =>
      intro _ _
      exact ⟨_, rfl, List.mem_cons_self⟩
    | _ => rintro _ ⟨⟩

theorem returns_runToBoundary (proverRetries : Nat) (selected : MidenSelected T) :
    (sendingContract net M X proposalId).Returns
      (Execution.runToBoundary net cfg M job proverRetries selected)
      (fun reached h' => ∃ reproduced ack advice inputs executed admission,
        Reached net M X selected h' reached reproduced ack advice inputs executed ∧
        admission.evidence = Worker.evidence (job.decided M reached.attempt.summaryPayload
          reached.proven) reached.applied reached.attempt.store.referenceBlock ∧
        ⟨.server (.commit (.admitExecutionCandidate admission)), some .admitted⟩ ∈ h') h := by
  unfold Execution.runToBoundary
  refine .seq (returns_approachBoundary proverRetries selected) fun reached h₁ _ hr => ?_
  obtain ⟨reproduced, ack, advice, inputs, executed, hr⟩ := hr
  refine .seq (returns_crossBoundary _ _ _) fun _ h₂ hs₂ hadmitted => ?_
  obtain ⟨admission, hevidence, hmem⟩ := hadmitted
  exact .pure' ⟨reproduced, ack, advice, inputs, executed, admission, hr.mono hs₂, hevidence, hmem⟩

/-- The advice is the cosigners' signatures and at most Guardian's, all over the
signed summary. -/
theorem Reached.signatures {input : ExecutionInput} {selected : MidenSelected T}
    {reached : Approached T} {reproduced : T.TransactionSummary} {ack : Option GuardianAck}
    {advice : List (Word × T.Advice)} {inputs : ExecutionInputs T}
    {executed : ExecutedTransaction T} (hsel : Selected M input selected)
    (hr : Reached net M X selected h reached reproduced ack advice inputs executed) :
    ∃ ackAdvice, advice = selected.advice ++ ackAdvice ∧
      ∀ entry ∈ advice, M.Signs selected.summary entry := by
  have hcosigned : ∀ entry ∈ selected.advice, M.Signs selected.summary entry := by
    intro entry hentry
    obtain ⟨_, _, hverified⟩ := hsel.advice entry hentry
    exact signs_of_verifiedAdvice hverified
  have hadvice := hr.advice_eq
  unfold MidenAttempt.advice at hadvice
  split at hadvice
  · cases hadvice
    rw [hr.prepared.signatureAdvice]
    exact ⟨[], (List.append_nil _).symm, hcosigned⟩
  · obtain ⟨entry, hentry, rfl⟩ := Option.map_eq_some_iff.mp hadvice
    rw [hr.prepared.signatureAdvice]
    refine ⟨[entry], rfl, fun e he => ?_⟩
    rcases List.mem_append.mp he with he | he
    · exact hcosigned e he
    · rw [List.mem_singleton.mp he]
      unfold MidenAttempt.ackAdvice at hentry
      simp only [Option.bind_eq_bind, Option.bind_eq_some_iff] at hentry
      obtain ⟨commitment, _, hentry⟩ := hentry
      rw [hr.prepared.summary] at hentry
      exact .inl ⟨_, _, _, _, hentry⟩

/-- The transaction was authorized by the signed summary. -/
theorem Reached.authorized {input : ExecutionInput} {selected : MidenSelected T}
    {reached : Approached T} {reproduced : T.TransactionSummary} {ack : Option GuardianAck}
    {advice : List (Word × T.Advice)} {inputs : ExecutionInputs T}
    {executed : ExecutedTransaction T} (hfree : M.CollisionFree) (hX : X.Faithful M)
    (hsel : Selected M input selected)
    (hr : Reached net M X selected h reached reproduced ack advice inputs executed) :
    reproduced = selected.summary ∧ X.summaryOf executed = selected.summary := by
  have hsame : reproduced = selected.summary := hfree.summary hr.prepared.commitment
  refine ⟨hsame, ?_⟩
  obtain ⟨unsigned, hunsigned, hruns⟩ := hr.prepared.unsigned
  obtain ⟨hnotes, hargs⟩ := StoredRequest.executionInputs_extra hunsigned hr.execution.from_request
  obtain ⟨_, _, hsigns⟩ := hr.signatures hsel
  rw [← hsame] at hsigns
  have hrun := hr.execution.runs
  have hinputs : inputs = ⟨unsigned.txArgs.extendAdviceMap advice, unsigned.inputNotes⟩ := by
    rw [← hnotes, ← hargs]
  rw [hinputs] at hrun
  rw [hX.authorized hruns hsigns hrun, hsame]

/-- An attempt that has crossed the boundary has what it may send. -/
theorem sent_of_reached (law : net.Coherent) (hfree : M.CollisionFree) (hX : X.Faithful M)
    (hreads : M.Reads net) {proposal : DeltaObject} {stateJson : StateJson}
    {selected : MidenSelected T} {reached : Approached T} {reproduced : T.TransactionSummary}
    {ack : Option GuardianAck} {advice : List (Word × T.Advice)} {inputs : ExecutionInputs T}
    {executed : ExecutedTransaction T} {admission : CandidateAdmission}
    (hproposal : ⟨.server (.query (.pullDeltaProposal proposalId)), some (some proposal)⟩ ∈ h)
    (hstate : net.IsState stateJson proposal.prevCommitment)
    (hbase : job.baseCommitment = proposal.prevCommitment)
    (hsel : Selected M ⟨stateJson, proposal.deltaPayload, Execution.cosignerSigs proposal⟩ selected)
    (hready : selected.isReady = true)
    (hr : Reached net M X selected h reached reproduced ack advice inputs executed)
    (hevidence : admission.evidence = Worker.evidence (job.decided M reached.attempt.summaryPayload
      reached.proven) reached.applied reached.attempt.store.referenceBlock)
    (hadmitted : ⟨.server (.commit (.admitExecutionCandidate admission)), some .admitted⟩ ∈ h) :
    ∃ s, SentIsSigned M X proposalId h reached.proven reached.sealed s := by
  obtain ⟨hsame, hauthorized⟩ := hr.authorized hfree hX hsel
  obtain ⟨ackAdvice, hadvice, _⟩ := hr.signatures hsel
  have hproof := hr.proof
  simp only [MidenAttempt.isProofOf, Bool.and_eq_true, beq_iff_eq] at hproof
  obtain ⟨⟨⟨⟨⟨hid, _⟩, _⟩, hblock⟩, _⟩, hexpiration⟩ := hproof
  -- the transaction id binds both ends and the notes
  obtain ⟨hinitial, hfinal, hins, houts, _⟩ := hfree.transaction hid
  have hnotes := hr.execution.notes
  simp only [MidenAttempt.sameNotes, Bool.and_eq_true, beq_iff_eq] at hnotes
  refine ⟨⟨proposal, selected.summary, reached.attempt.account, reached.attempt.request,
    reached.attempt.store, selected.advice, ackAdvice, inputs, executed, admission⟩, ?_⟩
  exact
    { proposal := hproposal
      summary := hsel.summary
      request := by
        rw [← hr.prepared.request, hsel.ofInput]
      inputs := hadvice ▸ hr.execution.from_request
      executed := hr.executes
      proves := ⟨hid, hr.verified⟩
      inputsSealed := hr.sealed_eq
      authorized := hauthorized
      threshold := by
        obtain ⟨required, hrequired, hle⟩ := (Option.any_eq_true ..).mp hready
        rw [hsel.required, ← hr.prepared.account] at hrequired
        exact ⟨required, hrequired, of_decide_eq_true hle⟩
      approved := hsel.advice
      acknowledged := by
        obtain ⟨scheme, summary, signature, hsummary, hsign⟩ := hr.signed
        rw [hr.prepared.payload, hreads.summary, hsame] at hsummary
        cases hsummary
        exact ⟨scheme, signature, hsign⟩
      consumes := by
        rw [hfree.inputNotes hins, hfree.inputNotes hnotes.1, hr.prepared.summary]
      creates := by
        rw [hfree.outputNotes houts, hfree.outputNotes hnotes.2, hr.prepared.summary]
      admitted := hadmitted
      reserved := by
        rw [hevidence]
        exact hbase
      base := by
        obtain ⟨head, hhead, hcommitment⟩ := hstate
        rw [hinitial, hX.account hr.execution.runs, hr.prepared.storeAccount, hevidence,
          ← hreads.account hsel.account hhead, hcommitment]
        exact hbase.symm
      post := by
        obtain ⟨prev, json, happlied⟩ := hr.applied
        have hlower := law.lower
          (law.apply_isState (Network.verifyAndApplyDelta_eq_some happlied).2)
        have hequal : executed.finalAccountCommitment.toLower =
            reached.applied.commitment.toLower := by
          simpa [eqIgnoreAsciiCase] using hr.final
        rw [hX.printed hr.execution.runs, hlower] at hequal
        rw [hfinal, hequal, hevidence]
        rfl
      transactionId := by
        rw [hevidence]
        rfl
      referenceBlock := by
        rw [hblock, hX.block hr.execution.runs, hevidence]
        rfl
      expirationBlock := by
        rw [hevidence]
        rfl }

/-! ## The request -/

theorem returns_pendingProposal : (sendingContract net M X proposalId).Returns
    (server (pendingProposal proposalId)) (fun proposal h' =>
      ⟨.server (.query (.pullDeltaProposal proposalId)), some (some proposal)⟩ ∈ h') h := by
  refine ⟨trivial, fun answer _ => ?_⟩
  cases answer with
  | none => rintro _ ⟨⟩
  | some found =>
    cases found with
    | none => rintro _ ⟨⟩
    | some proposal =>
      obtain ⟨_, _, _, _, status⟩ := proposal
      cases status with
      | pending =>
        rintro _ ⟨⟩
        exact List.mem_cons_self
      | _ => rintro _ ⟨⟩

variable {proposal : DeltaObject} {stateJson : StateJson} {selected : MidenSelected T}

/-- A worker sends what `sent_of_reached` says, or nothing. -/
theorem returns_runExecution (law : net.Coherent) (hfree : M.CollisionFree) (hX : X.Faithful M)
    (hreads : M.Reads net) (proverRetries : Nat)
    (hproposal : ⟨.server (.query (.pullDeltaProposal proposalId)), some (some proposal)⟩ ∈ h)
    (hstate : net.IsState stateJson proposal.prevCommitment)
    (hbase : job.baseCommitment = proposal.prevCommitment)
    (hsel : Selected M ⟨stateJson, proposal.deltaPayload, Execution.cosignerSigs proposal⟩ selected)
    (hready : selected.isReady = true) :
    (sendingContract net M X proposalId).Returns
      (Execution.runExecution net cfg M job proverRetries selected) (fun _ _ => True) h := by
  unfold Execution.runExecution
  refine .seq (.absorb' (returns_runToBoundary proverRetries selected)) fun result h₁ hs₁ hres => ?_
  split
  · next reached =>
    obtain ⟨reproduced, ack, advice, inputs, executed, admission, hr, hevidence, hadmitted⟩ :=
      hres reached rfl
    refine .seq (returns_server fun _ _ _ => trivial) fun claimed h₂ hs₂ _ => ?_
    split
    · unfold Execution.submit
      refine .bind' (.bind' (.op' ?_ fun answer _ => ?_))
      · exact sent_of_reached law hfree hX hreads (hs₂.subset (hs₁.subset hproposal)) hstate hbase
          hsel hready (hr.mono hs₂) hevidence (hs₂.subset hadmitted)
      · split
        · exact returns_server fun _ _ _ => returns_server fun _ _ _ => trivial
        · exact returns_server fun _ _ _ => returns_server fun _ _ _ => trivial
        · exact .pure' (returns_server fun _ _ _ => trivial)
        · exact .pure' (returns_server fun _ _ _ => trivial)
    · exact returns_server fun _ _ _ => trivial
  · exact .bind' (returns_server fun _ _ _ => returns_server fun _ _ _ => trivial)
  · exact returns_server fun _ _ _ => trivial

theorem returns_reserveAndRun (law : net.Coherent) (hfree : M.CollisionFree) (hX : X.Faithful M)
    (hreads : M.Reads net) {params : RequestExecutionParams} (proverRetries : Nat)
    (scheme : SignatureScheme) (row : LeaseRow)
    (hproposal : ⟨.server (.query (.pullDeltaProposal proposalId)), some (some proposal)⟩ ∈ h)
    (hstate : net.IsState stateJson proposal.prevCommitment)
    (hsel : Selected M ⟨stateJson, proposal.deltaPayload, Execution.cosignerSigs proposal⟩ selected)
    (hready : selected.isReady = true) :
    (sendingContract net M X proposalId).Returns
      (Execution.reserveAndRun net cfg M params proverRetries proposal scheme selected row)
      (fun _ _ => True) h := by
  unfold Execution.reserveAndRun
  refine .seq (returns_server fun _ _ _ => trivial) fun shutDown h₁ hs₁ _ => ?_
  split
  · exact returns_server fun _ _ _ => trivial
  refine .seq (returns_server fun _ _ _ => trivial) fun written h₂ hs₂ _ => ?_
  split
  · exact returns_runExecution law hfree hX hreads proverRetries
      (hs₂.subset (hs₁.subset hproposal)) hstate rfl hsel hready
  all_goals exact returns_server fun _ _ _ => trivial

theorem returns_selectAndRun (law : net.Coherent) (hfree : M.CollisionFree) (hX : X.Faithful M)
    (hreads : M.Reads net) {params : RequestExecutionParams} (proverRetries : Nat)
    (metadata : AccountMetadata)
    (hproposal : ⟨.server (.query (.pullDeltaProposal proposalId)), some (some proposal)⟩ ∈ h) :
    (sendingContract net M X proposalId).Returns
      (Execution.selectAndRun net cfg M params proverRetries metadata proposal)
      (fun _ _ => True) h := by
  unfold Execution.selectAndRun
  refine .seq (returns_pullState _) fun currentState h₁ hs₁ hstate => ?_
  split
  · exact .throw' _
  next hprev =>
  split
  · exact .throw' _
  next selected hselected =>
  split
  · exact .throw' _
  next hready =>
  refine .seq (returns_server fun _ _ _ => trivial) fun _ h₂ hs₂ _ => ?_
  split
  · exact .throw' _
  refine .seq (returns_server fun _ _ _ => trivial) fun _ h₃ hs₃ _ => ?_
  split
  · exact returns_server fun _ _ _ => trivial
  refine .seq (returns_server fun _ _ _ => trivial) fun acquired h₄ hs₄ _ => ?_
  split
  · exact returns_server fun _ _ _ => trivial
  · have hs : h <:+ h₄ := ((hs₁.trans hs₂).trans hs₃).trans hs₄
    refine returns_reserveAndRun law hfree hX hreads proverRetries _ _ (hs.subset hproposal) ?_
      (selected_of_selectSignatures hselected) (by simpa using hready)
    exact not_not.mp hprev ▸ hstate

theorem returns_requestExecution (law : net.Coherent) (hfree : M.CollisionFree) (hX : X.Faithful M)
    (hreads : M.Reads net) (params : RequestExecutionParams) (proverRetries : Nat) :
    (sendingContract net M X params.proposalId).Returns
      (Execution.requestExecution net cfg M params proverRetries) (fun _ _ => True) h := by
  unfold Execution.requestExecution
  refine .bind' (returns_server fun metadata h₁ _ => .bind' (returns_server fun refused h₂ _ => ?_))
  split
  · exact .throw' _
  refine .bind' (returns_server fun _ h₃ _ => ?_)
  refine .seq returns_pendingProposal fun proposal h₄ _ hproposal => ?_
  split
  · exact .throw' _
  refine .seq (returns_server fun _ _ _ => trivial) fun _ h₅ hs₅ _ => ?_
  split
  · exact .throw' _
  split
  · exact .throw' _
  refine .seq (returns_server fun _ _ _ => trivial) fun active h₆ hs₆ _ => ?_
  split
  · exact returns_server fun _ _ _ => trivial
  refine .seq (returns_server fun _ _ _ => trivial) fun pending h₇ hs₇ _ => ?_
  split
  · exact .throw' _
  · exact returns_selectAndRun law hfree hX hreads proverRetries metadata
      (hs₇.subset (hs₆.subset (hs₅.subset hproposal)))

end Steps

/-- A state that a process reads in a run is the state of its commitment. -/
theorem Reachable.stateRowsRead {net : Network} (law : net.Lawful) (one : net.OneLineage)
    {cfg : Config} {G : RunGuard} {w₀ : World} (hfresh : w₀.Fresh net) {c : SystemConf}
    (h : Reachable net cfg G w₀ c) {pid : Nat} {op : Op} {ch : Choice} {r : Res op} {w' : World}
    (hx : exec pid op ch c.world = some (r, w')) : stateRowsRead net op r := by
  have hinv := Reachable.landingInv law one hfresh h
  cases op with
  | query q =>
    cases q with
    | pullState =>
      intro st hst
      subst hst
      unfold exec at hx
      split at hx
      · cases hx
      · simp only at hx
        split at hx
        · injection hx with hpair
          injection hpair with hrow
          exact (hinv.state (Option.some.inj hrow)).1
        · cases hx
    | _ => trivial
  | _ => trivial

/-- Whatever the node, the prover and the executor answer, a transaction that is
handed to a node is the one the proposal's cosigners and Guardian signed, as the
evidence records it. -/
theorem sent_is_what_was_signed (net : Network) (law : net.Coherent) (cfg : Config) (M : Miden T)
    (hfree : M.CollisionFree) (hreads : M.Reads net) (X : Executor T) (hX : X.Faithful M)
    (params : RequestExecutionParams) (proverRetries : Nat)
    (h : History (AttemptOp T) AttemptRes) (proven : ProvenTransaction T)
    (sealed : SealedTransactionInputs T)
    (k : AttemptRes (.submit proven sealed) →
      Prog (AttemptOp T) AttemptRes (Except GuardianError Unit))
    (hsends : (sendingContract net M X params.proposalId).After
      (Execution.requestExecution net cfg M params proverRetries).run h
      (.call (.submit proven sealed) k)) :
    ∃ s, SentIsSigned M X params.proposalId h proven sealed s :=
  (returns_requestExecution law hfree hX hreads params proverRetries).demands hsends

/-! ## A run -/

namespace Demo

/-- Accounts, notes and advice are their texts. -/
abbrev texts : MidenTypes where
  Account := String
  AccountDelta := Unit
  Note := String
  InputNote := String
  OutputNote := String
  Script := String
  PartialNote := String
  Recipients := Unit
  MerkleStore := Unit
  Upgrade := Unit
  Advice := String
  TransactionInputs := String
  Proof := Unit

/-- Numbers in unary. -/
def unary : Json.NumberText Nat where
  text := fun n => List.replicate (n + 1) '1'
  injective := fun h => by simpa using congrArg List.length h
  nonempty := fun n => by simp
  chars := fun n c hc => by
    rw [List.eq_of_mem_replicate hc]
    decide

/-- A commitment that hides nothing: the text of what is committed to. -/
def commit (v : Json.Value Nat) : Word := .ofList (Json.write unary v)

theorem commit_injective {v v' : Json.Value Nat} (h : commit v = commit v') : v = v' :=
  Json.write_injective (String.ofList_inj.mp h)

def strings (l : List String) : Json.Value Nat := .arr (l.map .str)

theorem strings_injective {l l' : List String} (h : strings l = strings l') : l = l' :=
  List.map_injective_iff.mpr (fun _ _ hs => Json.Value.str.inj hs) (Json.Value.arr.inj h)

def summaryValue (s : texts.TransactionSummary) : Json.Value Nat :=
  .arr [strings s.inputNotes, strings s.outputNotes, .num s.blockNumber, .str s.blockCommitment,
    .num s.expirationDelta, .arr (s.userParams.map .num)]

theorem summaryValue_injective {s s' : texts.TransactionSummary}
    (h : summaryValue s = summaryValue s') : s = s' := by
  obtain ⟨delta, ins, outs, number, block, expiration, params⟩ := s
  obtain ⟨delta', ins', outs', number', block', expiration', params'⟩ := s'
  simp only [summaryValue, Json.Value.arr.injEq, List.cons.injEq, Json.Value.num.injEq,
    Json.Value.str.injEq, and_true] at h
  obtain ⟨hins, houts, rfl, rfl, rfl, hparams⟩ := h
  have hnum : Function.Injective (Json.Value.num : Nat → Json.Value Nat) :=
    fun _ _ hn => Json.Value.num.inj hn
  rw [strings_injective hins, strings_injective houts, List.map_injective_iff.mpr hnum hparams]

/-- The summary of the proposal: it consumes and creates one note, and its
approval runs out at block 9. -/
def signedSummary : texts.TransactionSummary := ⟨(), ["in"], ["out"], 1, "block", 5, [9]⟩

/-- The request of the proposal. -/
def storedRequest : StoredRequest texts where
  blockNumbers := [1]
  inputNotes := ["in"]
  inputNotesArgs := []
  explicitInputNotes := [("in", "in")]
  scriptTemplate := .custom "script"
  expectedOutputRecipients := ()
  adviceMap := [("auth", "args")]
  merkleStore := ()
  expirationDelta := none
  scriptArg := none
  authArg := some "auth"
  accountCodeUpgrade := none

noncomputable def miden : Miden texts where
  accountFromJson := fun json => if json ∈ ["s", "st"] then some json else none
  accountId := fun _ => "account"
  accountCommitment := id
  extractPubkeys := fun _ => ["old"]
  extractGuardianPublicKey := fun _ => some "guardian"
  threshold := fun _ _ => some 1
  requiresGuardianAck := fun _ => true
  proposalType := fun _ => none
  txSummaryField := fun p =>
    if p = "proposal" then some (commit (summaryValue signedSummary)) else none
  transactionRequestField := fun p => if p = "proposal" then some "request" else none
  summaryFromJson := fun p =>
    if p = commit (summaryValue signedSummary) then some signedSummary
    else Function.partialInv (fun s => commit (summaryValue s)) p
  summaryToJson := fun s => commit (summaryValue s)
  summaryCommitment := fun s => commit (summaryValue s)
  envelopeFromJson := fun p => if p = "request" then some ⟨1, "0.17", "checksum", "bytes"⟩ else none
  base64Decode := fun s => if s = "bytes" then some [1] else none
  checksumOf := fun _ => "checksum"
  clientReads := fun bytes => bytes == [1]
  readFrom := fun bytes => if bytes = [1] then some (storedRequest, []) else none
  emptyWord := "empty"
  wordFromHex := some
  noteId := id
  inputNoteBlock := fun _ => none
  newInputNotes := some
  sendNotesScript := fun _ _ _ => none
  expirationScript := fun _ => ("expiration", "delta")
  inputNoteCommitment := id
  outputNoteCommitment := id
  inputNotesCommitment := fun l => commit (strings l)
  outputNotesCommitment := fun l => commit (strings l)
  transactionId := fun a b c d e => commit (strings [a, b, c, d, e])
  proposalSignature := .falcon
  verifyProposalSignature := fun _ signature =>
    if signature = .falcon "signature" then some "old" else none
  buildSignatureAdviceEntry := fun _ commitment _ signature _ => some (commitment, signature)
  eip712SignatureAdvice := fun _ _ _ => none
  verify := fun _ => true

theorem miden_collisionFree : miden.CollisionFree where
  summary := fun h => summaryValue_injective (commit_injective h)
  transaction := fun h => by
    have hstrings := strings_injective (commit_injective h)
    simpa using hstrings
  inputNotes := fun h => strings_injective (commit_injective h)
  outputNotes := fun h => strings_injective (commit_injective h)

/-- The account at `s`, and after the proposal's transaction at `st`. -/
def transfer : Network where
  getStateHead := fun s => if s ∈ ["s", "st"] then some ⟨s, none⟩ else none
  applyDelta := fun s p =>
    if s = "s" ∧ p = commit (summaryValue signedSummary) then
      some ⟨"st", "st", none, [⟨"old", none⟩], some "guardian"⟩
    else none
  chainCosigners := fun _ => [⟨"old", none⟩]
  extractGuardianCommitment := fun _ => some "guardian"
  extractGuardianScheme := fun _ => some .falcon
  deltaProposalId := fun _ p => some p
  authorizes := fun _ _ _ => true
  validateConfiguration := fun _ _ _ => true
  validateFirstState := fun s => s == "s"

theorem transfer_isState {s : StateJson} {c : Commitment} (h : transfer.IsState s c) :
    c = s ∧ s ∈ ["s", "st"] := by
  obtain ⟨head, hhead, rfl⟩ := h
  simp only [transfer] at hhead
  split at hhead
  · next hs =>
    cases hhead
    exact ⟨rfl, hs⟩
  · cases hhead

theorem transfer_apply {s : StateJson} {p : Payload} {applied : AppliedState}
    (h : transfer.applyDelta s p = some applied) :
    s = "s" ∧ applied = ⟨"st", "st", none, [⟨"old", none⟩], some "guardian"⟩ := by
  simp only [transfer] at h
  split at h
  · next hs => exact ⟨hs.1, (Option.some.inj h).symm⟩
  · cases h

def transferCoherent : transfer.Coherent where
  apply_isState := fun h => by
    rw [(transfer_apply h).2]
    exact ⟨⟨"st", none⟩, by decide, rfl⟩
  apply_cosigners := fun h => by
    rw [(transfer_apply h).2]
    rfl
  cosigners_congr := fun _ _ => rfl
  apply_congr := fun _ _ h h' => by rw [(transfer_apply h).2, (transfer_apply h').2]
  rank := String.length
  rank_lt_of_ne := fun h _ => by
    obtain ⟨s, p, applied, hs, happly, rfl⟩ := h
    obtain ⟨rfl, rfl⟩ := transfer_apply happly
    rw [(transfer_isState hs).1]
    decide
  lower := fun h => by
    obtain ⟨rfl, hs⟩ := transfer_isState h
    rcases List.mem_pair.mp hs with rfl | rfl
    · decide +kernel
    · decide +kernel

theorem miden_reads : miden.Reads transfer where
  account := fun ha hhead => by
    rename_i json a head
    rw [(transfer_isState ⟨head, hhead, rfl⟩).1]
    simp only [miden] at ha
    split at ha
    · exact (Option.some.inj ha)
    · cases ha
  summary := fun s => by
    simp only [miden]
    split
    · next h => rw [← summaryValue_injective (commit_injective h)]
    · exact Function.partialInv_left (fun _ _ h => summaryValue_injective (commit_injective h)) s

def executedTx (store : ExecutionDataStore texts) : ExecutedTransaction texts where
  accountId := "account"
  initialAccountCommitment := store.account
  finalAccountCommitment := "st"
  inputNotes := ["in"]
  outputNotes := ["out"]
  feeCommitment := "fee"
  blockHeader := store.chain.referenceHeader
  expirationBlockNum := 6
  txInputs := "inputs"

/-- Without a signature the transaction is not authorized. -/
def executorAnswer (store : ExecutionDataStore texts) (inputs : ExecutionInputs texts) :
    ExecutorAnswer texts :=
  if inputs.txArgs.adviceMap.length ≤ 1 then .unauthorized signedSummary
  else .executed (executedTx store)

def executor : Executor texts where
  runs := fun store _ _ inputs answer => answer = executorAnswer store inputs
  summaryOf := fun _ => signedSummary

theorem executorAnswer_executed {store : ExecutionDataStore texts} {inputs : ExecutionInputs texts}
    {tx : ExecutedTransaction texts} (h : .executed tx = executorAnswer store inputs) :
    tx = executedTx store := by
  unfold executorAnswer at h
  split at h
  · cases h
  · cases h
    rfl

theorem executor_faithful : executor.Faithful miden where
  account := fun h => by
    rw [executorAnswer_executed h]
    rfl
  block := fun h => by
    rw [executorAnswer_executed h]
    rfl
  printed := fun h => by
    rw [executorAnswer_executed h]
    show "st".toLower = "st"
    decide +kernel
  authorized := fun h _ _ => by
    simp only [executor, executorAnswer] at h
    split at h
    · exact (ExecutorAnswer.unauthorized.inj h).symm
    · cases h

/-- What the server is answered. -/
def serverAnswer : (o : Op) → Res o
  | .query .metadataGet => some (some ⟨.midenFalconRpo ["old"], false, none, none⟩)
  | .query (.pullDeltaProposal _) =>
    some (some ⟨1, "s", none, "proposal", .pending 0 "old" [⟨"signature", 0, "old"⟩]⟩)
  | .query .loadActiveExecution => some none
  | .query .hasPendingCandidate => some false
  | .query .pullState => some (some ⟨"s", "s", none⟩)
  | .query .pullStateHead => some (some ⟨"s", none⟩)
  | .query _ => none
  | .write _ => none
  | .begin _ => ()
  | .commit (.createExecutionReservation ..) => some (.created 1)
  | .commit (.renewExecutionReservation ..) => some .applied
  | .commit (.admitExecutionCandidate _) => some .admitted
  | .commit _ => none
  | .lease (.tryAcquire _ holder _) => some (some ⟨holder, 1, 130⟩)
  | .lease (.renew ..) => some true
  | .lease (.release _) => some ()
  | .node .chainTip => some 1
  | .node _ => none
  | .now => 100
  | .flag => false
  | .returns => ()

def provenTx : ProvenTransaction texts where
  accountId := "account"
  initialStateCommitment := "s"
  finalStateCommitment := "st"
  inputNotes := ["in"]
  outputNotes := ["out"]
  feeCommitment := "fee"
  refBlockNum := 1
  refBlockCommitment := "block"
  expirationBlockNum := 6
  proof := ()

def attemptAnswer : (o : AttemptOp texts) → AttemptRes o
  | .server o => serverAnswer o
  | .genesis => .ok ()
  | .chainView _ => .ok ⟨"genesis", ⟨1, "block"⟩, [1]⟩
  | .execute store _ _ inputs => executorAnswer store inputs
  | .prove _ => .proven provenTx
  | .sign _ _ => some ("acknowledgment", "guardian")
  | .seal .. => true
  | .submit .. => some .accepted

theorem attemptAnswer_allowed (o : AttemptOp texts) :
    (sendingContract transfer miden executor "t").allows o (attemptAnswer o) := by
  cases o with
  | server o =>
    cases o with
    | query q =>
      cases q with
      | pullState =>
        rintro _ ⟨⟩
        exact ⟨⟨"s", none⟩, by decide, rfl⟩
      | _ => trivial
    | _ => trivial
  | execute => rfl
  | _ => trivial

/-- The call is the one that sends. -/
def sends : AttemptOp texts → Bool
  | .submit .. => true
  | _ => false

def nextSends {α : Type} : Prog (AttemptOp texts) AttemptRes α → Bool
  | .done _ => false
  | .call o _ => sends o

/-- The execution of the proposal, up to the send. -/
noncomputable def sending : History (AttemptOp texts) AttemptRes ×
    Prog (AttemptOp texts) AttemptRes (Except GuardianError Unit) :=
  Contract.play sends attemptAnswer 100
    (Execution.requestExecution transfer config miden (execution 9) 1).run []

theorem nextSends_sending : nextSends sending.2 = true := by decide +kernel

end Demo

theorem sent_is_what_was_signed_run : ∃ h proven sealed k s,
    (sendingContract Demo.transfer Demo.miden Demo.executor "t").After
      (Execution.requestExecution Demo.transfer Demo.config Demo.miden (Demo.execution 9) 1).run h
      (.call (.submit proven sealed) k) ∧
    SentIsSigned Demo.miden Demo.executor "t" h proven sealed s := by
  have hafter : (sendingContract Demo.transfer Demo.miden Demo.executor "t").After
      (Execution.requestExecution Demo.transfer Demo.config Demo.miden (Demo.execution 9) 1).run
      Demo.sending.1 Demo.sending.2 := Contract.After.play Demo.attemptAnswer_allowed 100 .start
  have hnext := Demo.nextSends_sending
  generalize Demo.sending = played at hafter hnext
  obtain ⟨h, rest⟩ := played
  cases rest with
  | done _ => cases hnext
  | call o k =>
    cases o with
    | submit proven sealed =>
      obtain ⟨s, hs⟩ := sent_is_what_was_signed Demo.transfer Demo.transferCoherent Demo.config
        Demo.miden Demo.miden_collisionFree Demo.miden_reads Demo.executor Demo.executor_faithful
        (Demo.execution 9) 1 h proven sealed k hafter
      exact ⟨h, proven, sealed, k, s, hafter, hs⟩
    | _ => cases hnext

end Guardian
