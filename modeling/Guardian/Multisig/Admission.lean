import Guardian.Execution.Miden
import Guardian.Multisig.Account
import Mathlib.Data.Finset.Card

/- The multisig gate of `push_delta` (`services/multisig_admission.rs`,
   `services/proposal_signature.rs`): a push onto a multisig state is admitted
   when the matching proposal carries verified signatures of enough approvers.

   `Crypto` is what the miden and hex packages decide: how texts are read as
   summaries, keys and signatures, and whether a signature verifies. Nothing is
   assumed of it: verification is a function of the key, the message and the
   signature.

   `authorize_iff_signature_floor` says what the gate decides, in terms of the
   approvers of the state and of the signatures the proposal carries
   (`Approves`), and not of the loop that counts them. -/
namespace Guardian.Multisig

structure Crypto where
  Summary : Type
  FalconSignature : Type
  FalconKey : Type
  EcdsaSignature : Type
  EcdsaKey : Type
  /-- `serde_json::Value::get`. -/
  get : Payload → String → Option Payload
  /-- `TransactionSummary::from_json`. -/
  summaryFromJson : Payload → Except String Summary
  /-- `TransactionSummary::to_commitment`. -/
  summaryCommitment : Summary → Word
  eip712Hash : Summary → List UInt8
  /-- The form a `CosignerSignature` stores. -/
  proposalSignature : String → ProposalSignature
  /-- `hex::decode`. -/
  hexDecode : List Char → Except String (List UInt8)
  readFalconSignature : List UInt8 → Except String FalconSignature
  readEcdsaSignature : List UInt8 → Except String EcdsaSignature
  readEcdsaKey : List UInt8 → Except String EcdsaKey
  falconPublicKey : FalconSignature → FalconKey
  falconVerify : FalconKey → Word → FalconSignature → Bool
  falconCommitment : FalconKey → Word
  ecdsaVerify : EcdsaKey → Word → EcdsaSignature → Bool
  ecdsaVerifyPrehash : EcdsaKey → List UInt8 → EcdsaSignature → Bool
  /-- `EcdsaPublicKey::recover_from`. -/
  ecdsaRecoverFrom : Word → EcdsaSignature → Except String EcdsaKey
  ecdsaCommitment : EcdsaKey → Word

inductive AdmissionError where
  | invalidDelta (message : String)
  | invalidProposalSignature (message : String)
  | insufficientSignatures (required got : Nat)
  deriving DecidableEq, Repr

variable (C : Crypto)

/-! ## Signatures -/

/-- `trim_start_matches("0x")`. -/
def trimHexPrefix : List Char → List Char
  | '0' :: 'x' :: rest => trimHexPrefix rest
  | text => text

/-- `parse_hex`. -/
def parseHex {α : Type} (read : List UInt8 → Except String α) (value label : String) :
    Except AdmissionError α := do
  let invalid (e : String) := AdmissionError.invalidProposalSignature s!"Invalid {label}: {e}"
  let bytes ← (C.hexDecode (trimHexPrefix value.toList)).mapError invalid
  (read bytes).mapError invalid

/-- `invalid_signature`. -/
def invalidSignature : AdmissionError :=
  .invalidProposalSignature "Signature does not match the proposal"

/-- `ProposalSignature::scheme`. -/
def schemeOf : ProposalSignature → SignatureScheme
  | .falcon _ => .falcon
  | .ecdsa .. => .ecdsa

/-- Whether an ECDSA signature is over the summary, in the format it names. A raw
one must also recover to the supplied key. -/
def ecdsaVerified (summary : C.Summary) (key : C.EcdsaKey) (signature : C.EcdsaSignature) :
    EcdsaMessageFormat → Bool
  | .raw =>
    let message := C.summaryCommitment summary
    C.ecdsaVerify key message signature &&
      match C.ecdsaRecoverFrom message signature with
      | .ok recovered => C.ecdsaCommitment recovered == C.ecdsaCommitment key
      | .error _ => false
  | .eip712 => C.ecdsaVerifyPrehash key (C.eip712Hash summary) signature

/-- The key an ECDSA approval carries. -/
def parsePublicKey : Option String → Except AdmissionError C.EcdsaKey
  | none => .error (.invalidProposalSignature "ECDSA signature requires a public key")
  | some text => parseHex C C.readEcdsaKey text "ECDSA public key"

/-- `verify_proposal_signature`: the commitment of the key that signed. -/
def verifyProposalSignature (summary : C.Summary) :
    ProposalSignature → Except AdmissionError String
  | .falcon text => do
    let signature ← parseHex C C.readFalconSignature text "Falcon signature"
    let key := C.falconPublicKey signature
    if C.falconVerify key (C.summaryCommitment summary) signature then
      return commitmentHex (C.falconCommitment key)
    else throw invalidSignature
  | .ecdsa text publicKey format => do
    let signature ← parseHex C C.readEcdsaSignature text "ECDSA signature"
    let key ← parsePublicKey C publicKey
    if ecdsaVerified C summary key signature format then
      return commitmentHex (C.ecdsaCommitment key)
    else throw invalidSignature

/-- `proposal_tx_summary`. -/
def proposalTxSummary (payload : Payload) : Except AdmissionError C.Summary :=
  match C.get payload "tx_summary" with
  | none => .error (.invalidDelta "Missing transaction summary")
  | some json => (C.summaryFromJson json).mapError .invalidDelta

/-! ## The gate -/

/-- `pending_signatures`. -/
def pendingSignatures (proposal : DeltaObject) : List CosignerSignature :=
  match proposal.status with
  | .pending _ _ cosignerSigs => cosignerSigs
  | _ => []

/-- The signer an entry counts for, if it counts: a verified signature of an
approver under the scheme the state stores for it. -/
def countedSigner (summary : C.Summary) (approvers : List ChainCosigner) (schemeMap : Bool)
    (entry : CosignerSignature) : Option String :=
  let signature := C.proposalSignature entry.signature
  match verifyProposalSignature C summary signature with
  | .error _ => none
  | .ok signer =>
    match approvers.find? (fun approver => eqIgnoreAsciiCase approver.commitment signer) with
    | none => none
    | some approver =>
      let counted := match approver.scheme with
        | some scheme => scheme == schemeOf signature
        | none => !schemeMap
      if counted then some (toAsciiLowercase signer) else none

/-- The loop of `verified_approver_count` over the signatures. -/
def seenSigners (summary : C.Summary) (approvers : List ChainCosigner) (schemeMap : Bool) :
    List CosignerSignature → Finset String → Finset String
  | [], seen => seen
  | entry :: rest, seen =>
    match countedSigner C summary approvers schemeMap entry with
    | none => seenSigners summary approvers schemeMap rest seen
    | some signer => seenSigners summary approvers schemeMap rest (insert signer seen)

/-- `verified_approver_count`. -/
def verifiedApproverCount (summary : C.Summary) (signatures : List CosignerSignature)
    (approvers : List ChainCosigner) (schemeMap : Bool) : Nat :=
  (seenSigners C summary approvers schemeMap signatures ∅).card

/-- `signature_floor`: the lowest threshold any transaction on the account
meets. -/
def signatureFloor (S : Slots) (account : Account) : Except AdmissionError Nat :=
  match account.defaultThreshold S with
  | none => .error (.invalidDelta "Multisig account is missing its threshold")
  | some default =>
    let lowestOverride := ((account.procedures.drop 1).filterMap account.procedureOverride).min?
    let floor := lowestOverride.elim default fun lowest => min lowest default
    if floor = 0 then .error (.invalidDelta "Multisig account threshold must be at least 1")
    else .ok floor

/-- `authorize`. -/
def authorize (S : Slots) (account : Account) (pushedPayload : Payload)
    (proposal : Option DeltaObject) : Except AdmissionError Unit := do
  let pushed ← (C.summaryFromJson pushedPayload).mapError .invalidDelta
  let required ← signatureFloor S account
  match proposal with
  | none => throw (.insufficientSignatures required 0)
  | some proposal =>
    let summary ← proposalTxSummary C proposal.deltaPayload
    if C.summaryCommitment summary ≠ C.summaryCommitment pushed then
      throw (.insufficientSignatures required 0)
    else
      let got := verifiedApproverCount C summary (pendingSignatures proposal)
        (account.extractChainCosigners S) account.hasApproverSchemeMap
      if got < required then throw (.insufficientSignatures required got)
      else return ()

/-! ## Approvals -/

/-- A valid signature over the summary, of the key with this commitment, under
this scheme. -/
inductive ValidFor (summary : C.Summary) (commitment : Word) :
    SignatureScheme → ProposalSignature → Prop where
  | falcon {text : String} {signature : C.FalconSignature}
      (parsed : parseHex C C.readFalconSignature text "Falcon signature" = .ok signature)
      (verifies : C.falconVerify (C.falconPublicKey signature) (C.summaryCommitment summary)
        signature = true)
      (signer : C.falconCommitment (C.falconPublicKey signature) = commitment) :
      ValidFor summary commitment .falcon (.falcon text)
  | ecdsa {text keyText : String} {format : EcdsaMessageFormat} {signature : C.EcdsaSignature}
      {key : C.EcdsaKey}
      (parsed : parseHex C C.readEcdsaSignature text "ECDSA signature" = .ok signature)
      (parsedKey : parseHex C C.readEcdsaKey keyText "ECDSA public key" = .ok key)
      (verifies : ecdsaVerified C summary key signature format = true)
      (signer : C.ecdsaCommitment key = commitment) :
      ValidFor summary commitment .ecdsa (.ecdsa text (some keyText) format)

/-- The scheme the state stores for an approver, at the lowest index that lists
it. -/
def Account.storedScheme (S : Slots) (account : Account) (key : Word) : Option SignatureScheme :=
  account.schemeAt S (account.approverKeys.idxOf key)

/-- One signature approves for an approver: it is valid under the scheme the
state stores for the approver, or under any where the state has no scheme map. -/
def ApprovesFor (S : Slots) (account : Account) (summary : C.Summary) (key : Word)
    (signature : ProposalSignature) : Prop :=
  match account.storedScheme S key with
  | some scheme => ValidFor C summary key scheme signature
  | none => account.hasApproverSchemeMap = false ∧ ∃ scheme, ValidFor C summary key scheme signature

open Classical in
/-- The distinct approvers of the state that one of the signatures approves
for. -/
noncomputable def approvals (S : Slots) (account : Account) (summary : C.Summary)
    (signatures : List CosignerSignature) : Finset Word :=
  account.approverKeys.toFinset.filter fun key =>
    ∃ entry ∈ signatures, ApprovesFor C S account summary key (C.proposalSignature entry.signature)

/-! ## Counting -/

variable {C}

theorem ValidFor.scheme_eq {summary : C.Summary} {key : Word} {scheme : SignatureScheme}
    {signature : ProposalSignature} (h : ValidFor C summary key scheme signature) :
    schemeOf signature = scheme := by
  cases h <;> rfl

theorem bind_eq_ok {ε α β : Type} {x : Except ε α} {f : α → Except ε β} {b : β} :
    (x >>= f) = .ok b ↔ ∃ a, x = .ok a ∧ f a = .ok b := by
  cases x with
  | error e => exact ⟨fun h => (by cases h), fun ⟨_, h, _⟩ => by cases h⟩
  | ok a =>
    constructor
    · intro h
      exact ⟨a, rfl, h⟩
    · rintro ⟨a', ha, h⟩
      cases ha
      exact h

theorem verifyProposalSignature_eq_ok {summary : C.Summary} {signature : ProposalSignature}
    {signer : String} :
    verifyProposalSignature C summary signature = .ok signer ↔
      ∃ key, signer = commitmentHex key ∧ ValidFor C summary key (schemeOf signature) signature := by
  cases signature with
  | falcon text =>
    rw [verifyProposalSignature, bind_eq_ok]
    constructor
    · rintro ⟨parsed, hparsed, h⟩
      dsimp only at h
      split at h
      · rename_i hverifies
        cases h
        exact ⟨_, rfl, .falcon hparsed hverifies rfl⟩
      · cases h
    · rintro ⟨key, rfl, hvalid⟩
      cases hvalid with
      | falcon hparsed hverifies hsigner =>
        refine ⟨_, hparsed, ?_⟩
        dsimp only
        rw [if_pos hverifies, hsigner]
        rfl
  | ecdsa text publicKey format =>
    rw [verifyProposalSignature, bind_eq_ok]
    constructor
    · rintro ⟨parsed, hparsed, h⟩
      rw [bind_eq_ok] at h
      obtain ⟨key, hkey, h⟩ := h
      cases publicKey with
      | none => cases hkey
      | some keyText =>
        split at h
        · rename_i hverifies
          cases h
          exact ⟨_, rfl, .ecdsa hparsed hkey hverifies rfl⟩
        · cases h
    · rintro ⟨key, rfl, hvalid⟩
      cases hvalid with
      | ecdsa hparsed hkey hverifies hsigner =>
        refine ⟨_, hparsed, ?_⟩
        rw [bind_eq_ok]
        refine ⟨_, hkey, ?_⟩
        rw [if_pos hverifies, hsigner]
        rfl

/-- The first signer listed with a key carries the scheme of its lowest index. -/
theorem find?_signer (keys : List Word) (scheme : Nat → Option SignatureScheme) (key : Word) :
    ((keys.map commitmentHex).zipWith ChainCosigner.mk ((List.range keys.length).map scheme)).find?
        (fun approver => eqIgnoreAsciiCase approver.commitment (commitmentHex key)) =
      if key ∈ keys then some ⟨commitmentHex key, scheme (keys.idxOf key)⟩ else none := by
  induction keys generalizing scheme with
  | nil => rfl
  | cons first rest ih =>
    rw [List.length_cons, List.range_succ_eq_map, List.map_cons, List.map_cons, List.map_map,
      List.zipWith_cons_cons, List.find?_cons]
    by_cases hfirst : first = key
    · rw [(eqIgnoreAsciiCase_commitmentHex first key).mpr hfirst, hfirst,
        if_pos List.mem_cons_self, List.idxOf_cons_self]
    · have hneq : eqIgnoreAsciiCase (commitmentHex first) (commitmentHex key) = false := by
        rw [← Bool.not_eq_true, eqIgnoreAsciiCase_commitmentHex]
        exact hfirst
      rw [hneq]
      have hrest := ih (scheme ∘ Nat.succ)
      rw [hrest, List.idxOf_cons_ne _ hfirst]
      simp only [List.mem_cons, Ne.symm hfirst, false_or, Function.comp_apply]

theorem find?_extractChainCosigners (S : Slots) (account : Account) (key : Word) :
    (account.extractChainCosigners S).find?
        (fun approver => eqIgnoreAsciiCase approver.commitment (commitmentHex key)) =
      if key ∈ account.approverKeys then some ⟨commitmentHex key, account.storedScheme S key⟩
      else none := by
  simp only [Account.extractChainCosigners, Account.extractPubkeys,
    Account.extractApproverSchemes, List.length_map, Account.storedScheme]
  exact find?_signer account.approverKeys (account.schemeAt S) key

/-- An entry counts for exactly the approver it approves for. -/
theorem countedSigner_eq_some {S : Slots} {account : Account} {summary : C.Summary}
    {entry : CosignerSignature} {signer : String} :
    countedSigner C summary (account.extractChainCosigners S) account.hasApproverSchemeMap entry =
        some signer ↔
      ∃ key ∈ account.approverKeys, signer = commitmentHex key ∧
        ApprovesFor C S account summary key (C.proposalSignature entry.signature) := by
  simp only [countedSigner]
  set signature := C.proposalSignature entry.signature with hsig
  constructor
  · intro h
    cases hverify : verifyProposalSignature C summary signature with
    | error e => rw [hverify] at h; cases h
    | ok signed =>
      obtain ⟨key, rfl, hvalid⟩ := verifyProposalSignature_eq_ok.mp hverify
      simp only [hverify, find?_extractChainCosigners] at h
      by_cases hmem : key ∈ account.approverKeys
      · rw [if_pos hmem] at h
        refine ⟨key, hmem, ?_⟩
        rw [ApprovesFor]
        cases hscheme : account.storedScheme S key with
        | some scheme =>
          simp only [hscheme, Option.ite_none_right_eq_some, beq_iff_eq, Option.some.injEq] at h
          obtain ⟨heq, rfl⟩ := h
          exact ⟨toAsciiLowercase_commitmentHex key, heq ▸ hvalid⟩
        | none =>
          simp only [hscheme, Option.ite_none_right_eq_some, Bool.not_eq_true',
            Option.some.injEq] at h
          obtain ⟨hmap, rfl⟩ := h
          exact ⟨toAsciiLowercase_commitmentHex key, hmap, _, hvalid⟩
      · rw [if_neg hmem] at h
        cases h
  · rintro ⟨key, hmem, rfl, happroves⟩
    have hvalid : ValidFor C summary key (schemeOf signature) signature := by
      rw [ApprovesFor] at happroves
      split at happroves
      · rw [happroves.scheme_eq]
        exact happroves
      · obtain ⟨-, scheme, hvalid⟩ := happroves
        rw [hvalid.scheme_eq]
        exact hvalid
    have hverify := verifyProposalSignature_eq_ok.mpr ⟨key, rfl, hvalid⟩
    simp only [hverify, find?_extractChainCosigners, if_pos hmem]
    rw [toAsciiLowercase_commitmentHex]
    rw [ApprovesFor] at happroves
    cases hscheme : account.storedScheme S key with
    | some scheme =>
      rw [hscheme] at happroves
      simp only [happroves.scheme_eq, BEq.rfl, if_true]
    | none =>
      rw [hscheme] at happroves
      simp only [happroves.1, Bool.not_false, if_true]

theorem mem_seenSigners {summary : C.Summary} {approvers : List ChainCosigner} {schemeMap : Bool}
    {signatures : List CosignerSignature} {seen : Finset String} {signer : String} :
    signer ∈ seenSigners C summary approvers schemeMap signatures seen ↔
      signer ∈ seen ∨
        ∃ entry ∈ signatures, countedSigner C summary approvers schemeMap entry = some signer := by
  induction signatures generalizing seen with
  | nil => simp [seenSigners]
  | cons entry rest ih =>
    rw [seenSigners]
    cases hcounted : countedSigner C summary approvers schemeMap entry with
    | none =>
      rw [ih]
      simp [hcounted]
    | some first =>
      rw [ih, Finset.mem_insert]
      simp only [List.mem_cons, exists_eq_or_imp, hcounted, Option.some.injEq]
      constructor
      · rintro ((rfl | h) | h)
        · exact .inr (.inl rfl)
        · exact .inl h
        · exact .inr (.inr h)
      · rintro (h | rfl | h)
        · exact .inl (.inr h)
        · exact .inl (.inl rfl)
        · exact .inr h

/-- The loop counts the distinct approvers the signatures approve for. -/
theorem verifiedApproverCount_eq (S : Slots) (account : Account) (summary : C.Summary)
    (signatures : List CosignerSignature) :
    verifiedApproverCount C summary signatures (account.extractChainCosigners S)
        account.hasApproverSchemeMap = (approvals C S account summary signatures).card := by
  classical
  have himage : seenSigners C summary (account.extractChainCosigners S)
      account.hasApproverSchemeMap signatures ∅ =
        (approvals C S account summary signatures).image commitmentHex := by
    ext signer
    simp only [mem_seenSigners, countedSigner_eq_some, approvals, Finset.mem_image,
      Finset.mem_filter, List.mem_toFinset, Finset.notMem_empty, false_or]
    constructor
    · rintro ⟨entry, hentry, key, hmem, rfl, happroves⟩
      exact ⟨key, ⟨hmem, entry, hentry, happroves⟩, rfl⟩
    · rintro ⟨key, ⟨hmem, entry, hentry, happroves⟩, rfl⟩
      exact ⟨entry, hentry, key, hmem, rfl, happroves⟩
  rw [verifiedApproverCount, himage]
  exact Finset.card_image_of_injective _ fun _ _ => commitmentHex_inj

theorem approvals_congr (S : Slots) (account : Account) (summary : C.Summary)
    {signatures signatures' : List CosignerSignature}
    (h : ∀ entry, entry ∈ signatures ↔ entry ∈ signatures') :
    approvals C S account summary signatures = approvals C S account summary signatures' := by
  ext key
  simp only [approvals, Finset.mem_filter, h]

/-! ## The floor -/

/-- What the floor is: below the default and below every override of a procedure
a transaction can call. -/
theorem signatureFloor_le {S : Slots} {account : Account} {floor : Nat}
    (h : signatureFloor S account = .ok floor) :
    ∃ default, account.defaultThreshold S = some default ∧ floor ≤ default ∧
      ∀ root ∈ account.procedures.drop 1, ∀ threshold,
        account.procedureOverride root = some threshold → floor ≤ threshold := by
  rw [signatureFloor] at h
  cases hdefault : account.defaultThreshold S with
  | none => rw [hdefault] at h; cases h
  | some default =>
    rw [hdefault] at h
    dsimp only at h
    split at h
    · cases h
    · cases h
      refine ⟨default, rfl, ?_, ?_⟩
      · cases ((account.procedures.drop 1).filterMap account.procedureOverride).min? with
        | none => exact le_rfl
        | some lowest => exact Nat.min_le_right _ _
      · intro root hroot threshold hthreshold
        have hmem : threshold ∈ (account.procedures.drop 1).filterMap account.procedureOverride :=
          List.mem_filterMap.mpr ⟨root, hroot, hthreshold⟩
        cases hlowest : ((account.procedures.drop 1).filterMap account.procedureOverride).min? with
        | none =>
          rw [List.min?_eq_none_iff] at hlowest
          rw [hlowest] at hmem
          exact absurd hmem List.not_mem_nil
        | some lowest =>
          have hle : lowest ≤ threshold := (List.min?_eq_some_iff.mp hlowest).2 threshold hmem
          exact le_trans (Nat.min_le_left _ _) hle

theorem asU32_le (x : UInt64) : Account.asU32 x ≤ x.toNat := Nat.mod_le _ _

theorem asU32_lt (x : UInt64) : Account.asU32 x < 2 ^ 32 := Nat.mod_lt _ (by decide)

/-- A bound on every contribution bounds the highest of them. -/
theorem le_max?_getD {roots : List Word} {contribution : Word → Nat} {floor default : Nat}
    (hdefault : floor ≤ default) (h : ∀ root ∈ roots, floor ≤ contribution root) :
    floor ≤ ((roots.map contribution).max?).getD default := by
  cases hmax : (roots.map contribution).max? with
  | none => exact hdefault
  | some highest =>
    obtain ⟨root, hroot, rfl⟩ := List.mem_map.mp (List.max?_mem hmax)
    exact h root hroot

/-- The chain demands the floor of every transaction, also where a stored value
does not fit the `u32` the gate reads it as. -/
theorem signatureFloor_le_chainThreshold {S : Slots} {account : Account} {floor : Nat}
    (h : signatureFloor S account = .ok floor) {called : List Word}
    (hcalled : ∀ root ∈ called, root ∈ account.procedures.drop 1) :
    floor ≤ account.chainThreshold S called := by
  obtain ⟨default, hdefault, hle, hoverride⟩ := signatureFloor_le h
  rw [Account.defaultThreshold, Option.map_eq_some_iff] at hdefault
  obtain ⟨config, hconfig, rfl⟩ := hdefault
  have hchain : account.chainDefault S = config.w0.toNat := by
    rw [Account.chainDefault, hconfig]
    rfl
  have hfloor : floor ≤ account.chainDefault S := by
    rw [hchain]
    exact le_trans hle (asU32_le _)
  refine le_max?_getD hfloor fun root hroot => ?_
  cases hchainOverride : account.chainOverride root with
  | none => exact hfloor
  | some threshold =>
    show floor ≤ threshold
    rw [Account.chainOverride, Option.filter_eq_some_iff, Option.map_eq_some_iff] at hchainOverride
    obtain ⟨⟨entry, hentry, rfl⟩, hne⟩ := hchainOverride
    by_cases hread : Account.asU32 entry.w0 = 0
    · -- The gate reads no override, but the chain reads one of at least `2 ^ 32`.
      have hlarge : 2 ^ 32 ≤ entry.w0.toNat := by
        have hpos : entry.w0.toNat ≠ 0 := by simpa using hne
        exact Nat.le_of_dvd (Nat.pos_of_ne_zero hpos) (Nat.dvd_of_mod_eq_zero hread)
      exact le_trans (le_trans hle (asU32_lt _).le) hlarge
    · have hsome : account.procedureOverride root = some (Account.asU32 entry.w0) := by
        rw [Account.procedureOverride, hentry, Option.map_some, Option.filter_some,
          if_pos (by simpa using hread)]
      exact le_trans (hoverride root (hcalled root hroot) _ hsome) (asU32_le _)

theorem signatureFloor_le_thresholdOf {S : Slots} {account : Account} {floor threshold : Nat}
    (h : signatureFloor S account = .ok floor) {called : List Word}
    (hcalled : ∀ root ∈ called, root ∈ account.procedures.drop 1)
    (hthreshold : account.thresholdOf S called = some threshold) : floor ≤ threshold := by
  obtain ⟨default, hdefault, hle, hoverride⟩ := signatureFloor_le h
  rw [Account.thresholdOf, hdefault] at hthreshold
  cases hthreshold
  refine le_max?_getD hle fun root hroot => ?_
  cases hroverride : account.procedureOverride root with
  | none => exact hle
  | some threshold => exact hoverride root (hcalled root hroot) threshold hroverride

/-! ## What the gate decides -/

/-- The proposal is the record of the pushed transaction: both read as summaries,
with one commitment. -/
def Matches (C : Crypto) (pushedPayload : Payload) (proposal : DeltaObject)
    (summary : C.Summary) : Prop :=
  proposalTxSummary C proposal.deltaPayload = .ok summary ∧
    ∃ pushed, C.summaryFromJson pushedPayload = .ok pushed ∧
      C.summaryCommitment summary = C.summaryCommitment pushed

theorem mapError_eq_ok {ε ε' α : Type} {f : ε → ε'} {x : Except ε α} {a : α} :
    x.mapError f = .ok a ↔ x = .ok a := by
  cases x with
  | error e => exact ⟨fun h => (by cases h), fun h => (by cases h)⟩
  | ok b =>
    constructor
    · intro h
      cases h
      rfl
    · intro h
      cases h
      rfl

theorem authorize_eq_ok {S : Slots} {account : Account} {pushedPayload : Payload}
    {proposal : Option DeltaObject} :
    authorize C S account pushedPayload proposal = .ok () ↔
      ∃ record summary floor, proposal = some record ∧
        Matches C pushedPayload record summary ∧ signatureFloor S account = .ok floor ∧
        floor ≤ (approvals C S account summary (pendingSignatures record)).card := by
  rw [authorize, bind_eq_ok]
  constructor
  · rintro ⟨pushed, hpushed, h⟩
    obtain ⟨floor, hfloor, h⟩ := bind_eq_ok.mp h
    cases proposal with
    | none => cases h
    | some record =>
      obtain ⟨summary, hsummary, h⟩ := bind_eq_ok.mp h
      by_cases hcommitment : C.summaryCommitment summary = C.summaryCommitment pushed
      · rw [if_neg (not_not.mpr hcommitment)] at h
        dsimp only at h
        rw [verifiedApproverCount_eq] at h
        split at h
        · cases h
        · rename_i hcount
          exact ⟨record, summary, floor, rfl,
            ⟨hsummary, pushed, mapError_eq_ok.mp hpushed, hcommitment⟩, hfloor,
            Nat.le_of_not_lt hcount⟩
      · rw [if_pos hcommitment] at h
        cases h
  · rintro ⟨record, summary, floor, rfl, ⟨hsummary, pushed, hpushed, hcommitment⟩, hfloor, hcount⟩
    refine ⟨pushed, mapError_eq_ok.mpr hpushed, bind_eq_ok.mpr ⟨floor, hfloor, ?_⟩⟩
    refine bind_eq_ok.mpr ⟨summary, hsummary, ?_⟩
    rw [if_neg (not_not.mpr hcommitment)]
    dsimp only
    rw [verifiedApproverCount_eq, if_neg (Nat.not_lt.mpr hcount)]
    rfl

/-- The gate reads of the signatures only which entries there are. -/
theorem authorize_congr (S : Slots) (account : Account) (pushedPayload : Payload)
    {record record' : DeltaObject} (hpayload : record'.deltaPayload = record.deltaPayload)
    (hentries : ∀ entry, entry ∈ pendingSignatures record' ↔ entry ∈ pendingSignatures record) :
    authorize C S account pushedPayload (some record') =
      authorize C S account pushedPayload (some record) := by
  simp only [authorize, hpayload, verifiedApproverCount_eq,
    approvals_congr S account _ hentries]

/-- **The multisig gate.** A push is admitted exactly when the proposal is the
record of the pushed transaction and at least as many distinct approvers as the
signature floor have a signature that approves for them; the chain asks at least
the floor of every transaction, whichever procedures it calls; and the order and
the repetitions of the signatures do not matter. -/
theorem authorize_iff_signature_floor (C : Crypto) (S : Slots) (account : Account) :
    (∀ pushedPayload proposal, authorize C S account pushedPayload proposal = .ok () ↔
      ∃ record summary floor, proposal = some record ∧
        Matches C pushedPayload record summary ∧ signatureFloor S account = .ok floor ∧
        floor ≤ (approvals C S account summary (pendingSignatures record)).card) ∧
    (∀ floor, signatureFloor S account = .ok floor → ∀ called : List Word,
      (∀ root ∈ called, root ∈ account.procedures.drop 1) →
        floor ≤ account.chainThreshold S called ∧
        ∀ threshold, account.thresholdOf S called = some threshold → floor ≤ threshold) ∧
    (∀ pushedPayload (record record' : DeltaObject), record'.deltaPayload = record.deltaPayload →
      (∀ entry, entry ∈ pendingSignatures record' ↔ entry ∈ pendingSignatures record) →
      authorize C S account pushedPayload (some record') =
        authorize C S account pushedPayload (some record)) := by
  refine ⟨fun _ _ => authorize_eq_ok, ?_, ?_⟩
  · intro floor hfloor called hcalled
    exact ⟨signatureFloor_le_chainThreshold hfloor hcalled,
      fun threshold hthreshold => signatureFloor_le_thresholdOf hfloor hcalled hthreshold⟩
  · intro pushedPayload record record' hpayload hentries
    exact authorize_congr S account pushedPayload hpayload hentries

/-! ## A state without the approver scheme map -/

open Classical in
/-- The distinct approvers with a signature under the scheme the state stores for
them, and no others. -/
noncomputable def storedSchemeApprovals (C : Crypto) (S : Slots) (account : Account)
    (summary : C.Summary) (signatures : List CosignerSignature) : Finset Word :=
  account.approverKeys.toFinset.filter fun key =>
    ∃ scheme, account.storedScheme S key = some scheme ∧ ∃ entry ∈ signatures,
      ValidFor C summary key scheme (C.proposalSignature entry.signature)

namespace BareSlots

/-- Falcon signatures of one byte, each by the key of that byte. -/
def crypto : Crypto where
  Summary := Unit
  FalconSignature := UInt8
  FalconKey := UInt8
  EcdsaSignature := Unit
  EcdsaKey := Unit
  get := fun payload field => if field = "tx_summary" then some payload else none
  summaryFromJson := fun _ => .ok ()
  summaryCommitment := fun _ => Word.ofIndex 1
  eip712Hash := fun _ => []
  proposalSignature := .falcon
  hexDecode := fun text => if text = ['0', '7'] then .ok [7] else .error "invalid hex"
  readFalconSignature := fun
    | [b] => .ok b
    | _ => .error "invalid signature"
  readEcdsaSignature := fun _ => .error "invalid signature"
  readEcdsaKey := fun _ => .error "invalid key"
  falconPublicKey := id
  falconVerify := fun key _ signature => key == signature
  falconCommitment := fun key => Word.ofIndex key.toNat
  ecdsaVerify := fun _ _ _ => false
  ecdsaVerifyPrehash := fun _ _ _ => false
  ecdsaRecoverFrom := fun _ _ => .error "no key"
  ecdsaCommitment := fun _ => Word.default

def slots : Slots where
  mapRoot := fun _ => Word.default
  authSchemeId := fun
    | .falcon => 2
    | .ecdsa => 1
  root := fun _ => Word.default

/-- One approver, a threshold of one, and no scheme map. -/
def account : Account where
  storage := [(.thresholdConfig, .value ⟨1, 1, 0, 0⟩),
    (.approverPublicKeys, .map [(Word.ofIndex 0, Word.ofIndex 7)])]
  procedures := [Word.ofIndex 100, Word.ofIndex 101]

def proposal : DeltaObject where
  nonce := 1
  prevCommitment := "prev"
  newCommitment := none
  deltaPayload := "tx"
  status := .pending 0 "proposer" [⟨"07", 0, "signer"⟩]

end BareSlots

/-- The gate admits a push onto a state without the scheme map, although no
approver has a signature under a scheme that state stores. -/
theorem authorize_without_scheme_map :
    ¬ (authorize BareSlots.crypto BareSlots.slots BareSlots.account "tx"
          (some BareSlots.proposal) = .ok () ↔
        ∃ floor, signatureFloor BareSlots.slots BareSlots.account = .ok floor ∧
          floor ≤ (storedSchemeApprovals BareSlots.crypto BareSlots.slots BareSlots.account ()
            (pendingSignatures BareSlots.proposal)).card) := by
  have haccepts : authorize BareSlots.crypto BareSlots.slots BareSlots.account "tx"
      (some BareSlots.proposal) = .ok () := by decide +kernel
  have hfloor : signatureFloor BareSlots.slots BareSlots.account = .ok 1 := by decide +kernel
  have hnone : ∀ key, BareSlots.account.storedScheme BareSlots.slots key = none := fun _ => rfl
  have hempty : storedSchemeApprovals BareSlots.crypto BareSlots.slots BareSlots.account ()
      (pendingSignatures BareSlots.proposal) = ∅ := by
    apply Finset.eq_empty_of_forall_notMem
    intro key hkey
    simp only [storedSchemeApprovals, Finset.mem_filter] at hkey
    obtain ⟨-, scheme, hscheme, -⟩ := hkey
    rw [hnone key] at hscheme
    cases hscheme
  intro h
  obtain ⟨floor, hok, hle⟩ := h.mp haccepts
  rw [hfloor] at hok
  cases hok
  rw [hempty] at hle
  exact absurd hle (by decide)

end Guardian.Multisig
