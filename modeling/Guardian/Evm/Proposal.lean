import Guardian.Execution.Miden
import Guardian.Multisig.Admission
import Guardian.Replay.Floors

/- EVM proposals (`evm/proposal.rs`, `metadata/network.rs`).

   A proposal is stored as a delta: its fields are the payload, its signatures are
   the cosigner signatures of a pending status. Reading it back normalizes every
   signer and signature again. What is written is normalized already, so a stored
   proposal always reads back with the signers it was written with
   (`fromDelta_intoDelta`).

   The payload is kept as the record it is the JSON of, and what is compared or
   parsed character by character (addresses, hashes, ids, signatures) as the list
   of its characters. Of the delta, the fields that are always empty are left out;
   of the error on an invalid hex digit, the text of the decoder. -/
namespace Guardian.Evm

open Replay

/-- A string, by its characters. -/
abbrev Text := List Char

inductive EvmError where
  | storageError (message : String)
  | accountNotFound (accountId : Text)
  | accountReleased
  | accountPaused (reason : Option String)
  | unsupportedForNetwork (network operation : String)
  | unsupportedEvmChain (chainId : UInt64)
  | rpc (message : String)
  | invalidInput (message : String)
  | invalidEvmProposal (message : String)
  | invalidHex (field : String)
  | invalidProposalSignature (message : String)
  | signerNotAuthorized (signer : Text)
  | proposalNotFound (accountId commitment : Text)
  | proposalAlreadySigned (signerId : Text)
  | insufficientSignatures (required got : Nat)
  | authorizationFailed (message : String)
  | panicked
  deriving DecidableEq, Repr

/-! ## Texts -/

/-- `char::is_whitespace`. -/
def isWhitespace (c : Char) : Bool :=
  c.toNat ∈ [0x20, 0x85, 0xa0, 0x1680, 0x2028, 0x2029, 0x202f, 0x205f, 0x3000] ||
    (0x9 ≤ c.toNat && c.toNat ≤ 0xd) || (0x2000 ≤ c.toNat && c.toNat ≤ 0x200a)

/-- `str::trim`. -/
def trim (text : Text) : Text :=
  ((text.dropWhile isWhitespace).reverse.dropWhile isWhitespace).reverse

/-- `str::len`. -/
def utf8Len (text : Text) : Nat := (text.map Char.utf8Size).sum

/-- The value of a hex digit, of either case. -/
def hexNibble (c : Char) : Option Nat :=
  if '0' ≤ c ∧ c ≤ '9' then some (c.toNat - 48)
  else if 'a' ≤ c ∧ c ≤ 'f' then some (c.toNat - 87)
  else if 'A' ≤ c ∧ c ≤ 'F' then some (c.toNat - 55)
  else none

/-- `u8::is_ascii_hexdigit`. -/
def isAsciiHexdigit (c : Char) : Bool := (hexNibble c).isSome

/-- `hex::decode`. -/
def hexDecode : Text → Option (List UInt8)
  | [] => some []
  | [_] => none
  | high :: low :: rest => do
    let h ← hexNibble high
    let l ← hexNibble low
    let bytes ← hexDecode rest
    return UInt8.ofNat (16 * h + l) :: bytes

/-- `str::eq_ignore_ascii_case`. -/
def eqIgnoreAsciiCase (a b : Text) : Bool := a.map Char.toLower == b.map Char.toLower

/-- `normalize_evm_address`. -/
def normalizeEvmAddress (address : Text) : Except String Text :=
  match trim address with
  | '0' :: 'x' :: clean =>
    if utf8Len clean ≠ 40 then .error "address must be 20 bytes"
    else if clean.all isAsciiHexdigit then .ok ('0' :: 'x' :: clean.map Char.toLower)
    else .error "address must be hex encoded"
  | _ => .error "address must start with 0x"

/-- `evm_account_id`. -/
def evmAccountId (chainId : UInt64) (accountAddress : Text) : Text :=
  "evm:".toList ++ (toString chainId).toList ++ ':' :: accountAddress

/-- `parse_hex`. -/
def parseHex (value : Text) (field : String) : Except EvmError (List UInt8) :=
  match value with
  | '0' :: 'x' :: clean =>
    if utf8Len clean % 2 ≠ 0 then .error (.invalidEvmProposal (field ++ " must contain whole bytes"))
    else
      match hexDecode clean with
      | some bytes => .ok bytes
      | none => .error (.invalidHex field)
  | _ => .error (.invalidEvmProposal (field ++ " must start with 0x"))

/-- `parse_fixed_hex`. -/
def parseFixedHex (value : Text) (expectedLen : Nat) (field : String) :
    Except EvmError (List UInt8) := do
  let bytes ← parseHex value field
  if bytes.length ≠ expectedLen then
    throw (.invalidEvmProposal (field ++ " must be " ++ toString expectedLen ++ " bytes"))
  return bytes

/-- `format_fixed_hex`. -/
def formatFixedHex (bytes : List UInt8) : Text :=
  '0' :: 'x' :: bytes.flatMap fun b =>
    [hexDigits.getD (b.toNat / 16) '0', hexDigits.getD (b.toNat % 16) '0']

/-- `normalize_signature`. -/
def normalizeSignature (signature : Text) : Except EvmError Text := do
  return formatFixedHex (← parseFixedHex signature 65 "signature")

/-- `normalize_proposal_id`. -/
def normalizeProposalId (proposalId : Text) : Except EvmError Text := do
  return formatFixedHex (← parseFixedHex proposalId 32 "proposal_id")

/-- `normalize_hash`. -/
def normalizeHash (hash : Text) : Except EvmError (Text × List UInt8) := do
  let bytes ← parseFixedHex hash 32 "hash"
  return (formatFixedHex bytes, bytes)

/-- The loop of `parse_u256` over decimal digits, each step checked. -/
def parseDecimal : Nat → Text → Except EvmError Nat
  | n, [] => .ok n
  | n, digit :: rest =>
    if 10 * n + (digit.toNat - 48) < 2 ^ 256 then parseDecimal (10 * n + (digit.toNat - 48)) rest
    else .error (.invalidEvmProposal "nonce exceeds uint256")

/-- `parse_u256`. -/
def parseU256 (value : String) : Except EvmError Nat :=
  match value.toList with
  | '0' :: 'x' :: hexValue =>
    if 64 < utf8Len hexValue then .error (.invalidEvmProposal "nonce exceeds uint256")
    else if hexValue.all isAsciiHexdigit then
      .ok (hexValue.foldl (fun n c => 16 * n + (hexNibble c).getD 0) 0)
    else .error (.invalidEvmProposal "nonce hex value is invalid")
  | text =>
    let digits := trim text
    if digits.isEmpty || !digits.all Char.isDigit then
      .error (.invalidEvmProposal "nonce must be a decimal string or 0x-prefixed hex")
    else parseDecimal 0 digits

/-- `NormalizedNonce`; its bytes are a number below `2 ^ 256`. -/
structure NormalizedNonce where
  decimal : String
  nonceKey : String
  value : Nat
  deriving DecidableEq, Repr

/-- `normalize_nonce`. -/
def normalizeNonce (value : String) : Except EvmError NormalizedNonce := do
  let n ← parseU256 value
  return ⟨toString n, toString (n / 2 ^ 64), n⟩

/-- `compare_u256_decimal`, where it is asked for `Less`. -/
def lessU256Decimal (left right : String) : Except EvmError Bool := do
  let l ← parseU256 left
  let r ← parseU256 right
  return decide (l < r)

/-- `str::parse::<i64>`. -/
def parseI64 (text : String) : Option Int :=
  let number (digits : List Char) (negative : Bool) : Option Int :=
    if digits.isEmpty || !digits.all Char.isDigit then none
    else
      let n : Int := Nat.ofDigitChars 10 digits 0
      let value := if negative then -n else n
      if -2 ^ 63 ≤ value ∧ value < 2 ^ 63 then some value else none
  match text.toList with
  | '-' :: digits => number digits true
  | '+' :: digits => number digits false
  | digits => number digits false

/-! ## Proposals -/

structure EvmProposalSignature where
  signer : Text
  signature : Text
  signedAt : Int
  deriving DecidableEq, Repr

structure EvmProposal where
  proposalId : Text
  accountId : Text
  chainId : UInt64
  smartAccountAddress : Text
  validatorAddress : Text
  userOpHash : Text
  payload : String
  nonce : String
  nonceKey : String
  proposer : Text
  signerSnapshot : List Text
  threshold : Nat
  signatures : List EvmProposalSignature
  createdAt : Int
  expiresAt : Int
  deriving DecidableEq, Repr

structure EvmProposalPayload where
  kind : String
  proposalId : Text
  chainId : UInt64
  smartAccountAddress : Text
  validatorAddress : Text
  userOpHash : Text
  payload : String
  nonce : String
  nonceKey : String
  proposer : Text
  signerSnapshot : List Text
  threshold : Nat
  createdAt : Int
  expiresAt : Int
  deriving DecidableEq, Repr

/-- `ProposalSignature`. -/
inductive StoredSignature where
  | falcon (signature : Text)
  | ecdsa (signature : Text) (publicKey : Option Text) (messageFormat : EcdsaMessageFormat)
  deriving DecidableEq, Repr

structure CosignerSignature where
  signerId : Text
  signature : StoredSignature
  timestamp : String
  deriving DecidableEq, Repr

/-- `DeltaStatus`, of which a proposal is `Pending`. -/
inductive Status where
  | pending (timestamp : String) (proposerId : Text) (cosignerSigs : List CosignerSignature)
  | other (kind timestamp : String)
  deriving DecidableEq, Repr

/-- A proposal's `DeltaObject`. -/
structure Delta where
  accountId : Text
  nonce : Nat
  deltaPayload : EvmProposalPayload
  status : Status
  deriving DecidableEq, Repr

/-- `EVM_PROPOSAL_KIND`. -/
def evmProposalKind : String := "evm"

/-- `low_u64_nonce`. -/
def EvmProposalPayload.lowU64Nonce (payload : EvmProposalPayload) : Nat :=
  match normalizeNonce payload.nonce with
  | .ok nonce => nonce.value % 2 ^ 64
  | .error _ => 0

/-- How a stored signature is read. -/
def EvmProposalSignature.tryFrom (value : CosignerSignature) :
    Except EvmError EvmProposalSignature :=
  match value.signature with
  | .ecdsa text _ _ => do
    let signature ← normalizeSignature text
    let signer ← (normalizeEvmAddress value.signerId).mapError .invalidInput
    return ⟨signer, signature, (parseI64 value.timestamp).getD 0⟩
  | .falcon _ => .error (.invalidProposalSignature "EVM proposals require ECDSA signatures")

/-- How a signature is stored. -/
def CosignerSignature.ofEvm (value : EvmProposalSignature) : CosignerSignature where
  signerId := value.signer
  signature := .ecdsa value.signature none .raw
  timestamp := toString value.signedAt

namespace EvmProposal

def fromDelta (commitment : Text) (delta : Delta) : Except EvmError EvmProposal :=
  let payload := delta.deltaPayload
  if payload.kind ≠ evmProposalKind then
    .error (.invalidEvmProposal "delta_payload.kind must be evm")
  else if payload.proposalId ≠ commitment then
    .error (.invalidEvmProposal "proposal commitment does not match payload proposal_id")
  else
    match delta.status with
    | .other _ _ => .error (.proposalNotFound delta.accountId commitment)
    | .pending _ _ cosignerSigs => do
      let signatures ← cosignerSigs.mapM EvmProposalSignature.tryFrom
      return {
        proposalId := payload.proposalId
        accountId := delta.accountId
        chainId := payload.chainId
        smartAccountAddress := payload.smartAccountAddress
        validatorAddress := payload.validatorAddress
        userOpHash := payload.userOpHash
        payload := payload.payload
        nonce := payload.nonce
        nonceKey := payload.nonceKey
        proposer := payload.proposer
        signerSnapshot := payload.signerSnapshot
        threshold := payload.threshold
        signatures
        createdAt := payload.createdAt
        expiresAt := payload.expiresAt }

/-- `from_stored_delta`. -/
def fromStoredDelta (delta : Delta) : Except EvmError EvmProposal := do
  fromDelta (← normalizeProposalId delta.deltaPayload.proposalId) delta

def toPayload (p : EvmProposal) : EvmProposalPayload where
  kind := evmProposalKind
  proposalId := p.proposalId
  chainId := p.chainId
  smartAccountAddress := p.smartAccountAddress
  validatorAddress := p.validatorAddress
  userOpHash := p.userOpHash
  payload := p.payload
  nonce := p.nonce
  nonceKey := p.nonceKey
  proposer := p.proposer
  signerSnapshot := p.signerSnapshot
  threshold := p.threshold
  createdAt := p.createdAt
  expiresAt := p.expiresAt

def intoDelta (p : EvmProposal) : Delta where
  accountId := evmAccountId p.chainId p.smartAccountAddress
  nonce := p.toPayload.lowU64Nonce
  deltaPayload := p.toPayload
  status := .pending (toString p.createdAt) p.proposer (p.signatures.map CosignerSignature.ofEvm)

def hasSigner (p : EvmProposal) (signer : Text) : Bool :=
  p.signerSnapshot.any (eqIgnoreAsciiCase · signer)

def hasSignatureFrom (p : EvmProposal) (signer : Text) : Bool :=
  p.signatures.any (eqIgnoreAsciiCase ·.signer signer)

def signatureCount (p : EvmProposal) : Nat := p.signatures.length

def isExecutable (p : EvmProposal) : Bool := decide (p.threshold ≤ p.signatureCount)

end EvmProposal

structure ExecutableEvmProposal where
  hash : Text
  payload : String
  signatures : List Text
  signers : List Text
  deriving DecidableEq, Repr

def EvmProposal.executable (p : EvmProposal) : ExecutableEvmProposal where
  hash := p.userOpHash
  payload := p.payload
  signatures := p.signatures.map (·.signature)
  signers := p.signatures.map (·.signer)

/-- `NormalizedEvmProposalInput`. -/
structure NormalizedEvmProposalInput where
  chainId : UInt64
  smartAccountAddress : Text
  validatorAddress : Text
  hash : Text
  hashBytes : List UInt8
  payload : String
  nonce : NormalizedNonce
  proposer : Text
  signature : EvmProposalSignature
  ttlSeconds : UInt64
  deriving DecidableEq, Repr

/-- `NormalizedEvmProposalInput::new`. -/
def NormalizedEvmProposalInput.new (chainId : UInt64) (smartAccountAddress validatorAddress
    hash : Text) (payload nonce : String) (proposer : Text) (signature : EvmProposalSignature) (ttlSeconds : UInt64) :
    Except EvmError NormalizedEvmProposalInput :=
  if chainId = 0 then .error (.invalidEvmProposal "chain_id must be greater than zero")
  else if ttlSeconds = 0 then .error (.invalidEvmProposal "ttl_seconds must be greater than zero")
  else do
    let hashBytes ← parseFixedHex hash 32 "hash"
    let proposer ← (normalizeEvmAddress proposer).mapError .invalidInput
    let signer ← (normalizeEvmAddress signature.signer).mapError .invalidInput
    let text ← normalizeSignature signature.signature
    if signer ≠ proposer then throw (.signerNotAuthorized signer)
    else
      let smartAccountAddress ← (normalizeEvmAddress smartAccountAddress).mapError .invalidInput
      let validatorAddress ← (normalizeEvmAddress validatorAddress).mapError .invalidInput
      let nonce ← normalizeNonce nonce
      return {
        chainId, smartAccountAddress, validatorAddress
        hash := formatFixedHex hashBytes
        hashBytes, payload, nonce, proposer
        signature := ⟨signer, text, signature.signedAt⟩
        ttlSeconds }

/-! ## Normal forms -/

theorem toNat_lt_of_isAsciiHexdigit {c : Char} (h : isAsciiHexdigit c = true) : c.toNat < 128 := by
  rw [isAsciiHexdigit, hexNibble] at h
  have hle : ∀ {d : Char}, c ≤ d → c.toNat ≤ d.toNat := fun h => UInt32.le_iff_toNat_le.mp h
  split at h
  · rename_i hc
    exact Nat.lt_of_le_of_lt (hle hc.2) (by decide)
  · split at h
    · rename_i hc
      exact Nat.lt_of_le_of_lt (hle hc.2) (by decide)
    · split at h
      · rename_i hc
        exact Nat.lt_of_le_of_lt (hle hc.2) (by decide)
      · cases h

/-- A hex digit in lower case is one character of a normal form. -/
theorem toLower_hexdigit {c : Char} (h : isAsciiHexdigit c = true) :
    isAsciiHexdigit c.toLower = true ∧ c.toLower.toLower = c.toLower ∧
      c.toLower.utf8Size = c.utf8Size ∧ isWhitespace c.toLower = false := by
  have hall : ∀ n : Fin 128, isAsciiHexdigit (Char.ofNat n) = true →
      isAsciiHexdigit (Char.ofNat n).toLower = true ∧
        (Char.ofNat n).toLower.toLower = (Char.ofNat n).toLower ∧
        (Char.ofNat n).toLower.utf8Size = (Char.ofNat n).utf8Size ∧
        isWhitespace (Char.ofNat n).toLower = false := by decide
  have hc := hall ⟨c.toNat, toNat_lt_of_isAsciiHexdigit h⟩
  rw [Char.ofNat_toNat] at hc
  exact hc h

theorem dropWhile_whitespace {text : Text} (h : ∀ c ∈ text, isWhitespace c = false) :
    text.dropWhile isWhitespace = text := by
  cases text with
  | nil => rfl
  | cons c rest => rw [List.dropWhile_cons_of_neg (by simp [h c List.mem_cons_self])]

theorem trim_eq_self {text : Text} (h : ∀ c ∈ text, isWhitespace c = false) :
    trim text = text := by
  rw [trim, dropWhile_whitespace h, dropWhile_whitespace, List.reverse_reverse]
  intro c hc
  exact h c (List.mem_reverse.mp hc)

/-- A normalized address is normalized to itself. -/
theorem normalizeEvmAddress_idem {address normal : Text}
    (h : normalizeEvmAddress address = .ok normal) : normalizeEvmAddress normal = .ok normal := by
  rw [normalizeEvmAddress] at h
  split at h
  · rename_i clean _
    split at h
    · cases h
    · rename_i hlen
      split at h
      · rename_i hhex
        cases h
        rw [List.all_eq_true] at hhex
        have htrim : trim ('0' :: 'x' :: clean.map Char.toLower) =
            '0' :: 'x' :: clean.map Char.toLower := by
          refine trim_eq_self fun c hc => ?_
          rw [List.mem_cons, List.mem_cons, List.mem_map] at hc
          obtain rfl | rfl | ⟨d, hd, rfl⟩ := hc
          · decide
          · decide
          · exact (toLower_hexdigit (hhex d hd)).2.2.2
        have hlen' : utf8Len (clean.map Char.toLower) = utf8Len clean := by
          rw [utf8Len, utf8Len, List.map_map]
          exact congrArg List.sum (List.map_congr_left fun c hc =>
            (toLower_hexdigit (hhex c hc)).2.2.1)
        have hhex' : (clean.map Char.toLower).all isAsciiHexdigit = true := by
          rw [List.all_map, List.all_eq_true]
          exact fun c hc => (toLower_hexdigit (hhex c hc)).1
        have hlower : (clean.map Char.toLower).map Char.toLower = clean.map Char.toLower := by
          rw [List.map_map]
          exact List.map_congr_left fun c hc => (toLower_hexdigit (hhex c hc)).2.1
        rw [normalizeEvmAddress, htrim]
        show (if utf8Len (clean.map Char.toLower) ≠ 40 then Except.error "address must be 20 bytes"
          else if (clean.map Char.toLower).all isAsciiHexdigit then
            Except.ok ('0' :: 'x' :: (clean.map Char.toLower).map Char.toLower)
          else Except.error "address must be hex encoded") = _
        rw [hlen', if_neg hlen, if_pos hhex', hlower]
      · cases h
  · cases h

theorem hexNibble_digit {n : Nat} (h : n < 16) : hexNibble (hexDigits.getD n '0') = some n :=
  (by decide : ∀ n : Fin 16, hexNibble (hexDigits.getD n '0') = some n.val) ⟨n, h⟩

/-- What is written in hex is read back, and takes two bytes for each. -/
theorem parseHex_formatFixedHex (bytes : List UInt8) (field : String) :
    parseHex (formatFixedHex bytes) field = .ok bytes := by
  have hsize : ∀ c ∈ hexDigits, c.utf8Size = 1 := by
    have hall : hexDigits.all (fun c => c.utf8Size == 1) = true := by decide
    exact fun c hc => beq_iff_eq.mp (List.all_eq_true.mp hall c hc)
  have hread : ∀ bytes : List UInt8,
      hexDecode (bytes.flatMap fun b =>
        [hexDigits.getD (b.toNat / 16) '0', hexDigits.getD (b.toNat % 16) '0']) = some bytes ∧
      utf8Len (bytes.flatMap fun b =>
        [hexDigits.getD (b.toNat / 16) '0', hexDigits.getD (b.toNat % 16) '0']) =
          2 * bytes.length := by
    intro bytes
    induction bytes with
    | nil => exact ⟨rfl, rfl⟩
    | cons b rest ih =>
      have hb : b.toNat < 256 := b.toNat_lt
      have hvalue : 16 * (b.toNat / 16) + b.toNat % 16 = b.toNat := by omega
      rw [List.flatMap_cons, List.cons_append, List.cons_append, List.nil_append]
      constructor
      · rw [hexDecode, hexNibble_digit (by omega), hexNibble_digit (by omega), ih.1]
        show some (UInt8.ofNat (16 * (b.toNat / 16) + b.toNat % 16) :: rest) = some (b :: rest)
        rw [hvalue, UInt8.ofNat_toNat]
      · have hrest := ih.2
        rw [utf8Len] at hrest
        rw [utf8Len, List.map_cons, List.map_cons, List.sum_cons, List.sum_cons, hrest,
          hsize _ (mem_hexDigits_getD _), hsize _ (mem_hexDigits_getD _), List.length_cons]
        omega
  rw [formatFixedHex, parseHex, (hread bytes).2, if_neg (by omega), (hread bytes).1]

theorem parseFixedHex_formatFixedHex (bytes : List UInt8) (field : String) :
    parseFixedHex (formatFixedHex bytes) bytes.length field = .ok bytes := by
  rw [parseFixedHex, parseHex_formatFixedHex]
  show (if bytes.length ≠ bytes.length then _ else _) = _
  rw [if_neg (fun h => h rfl)]
  rfl

theorem parseFixedHex_length {value : Text} {field : String} {expectedLen : Nat} {bytes : List UInt8}
    (h : parseFixedHex value expectedLen field = .ok bytes) : bytes.length = expectedLen := by
  obtain ⟨parsed, -, h⟩ := Multisig.bind_eq_ok.mp h
  split at h
  · cases h
  · rename_i hlen
    cases h
    exact not_not.mp hlen

theorem fixedHex_idem {value normal : Text} {field : String} {expectedLen : Nat}
    (h : formatFixedHex <$> parseFixedHex value expectedLen field = .ok normal) :
    formatFixedHex <$> parseFixedHex normal expectedLen field = .ok normal := by
  cases hbytes : parseFixedHex value expectedLen field with
  | error e => rw [hbytes] at h; cases h
  | ok bytes =>
    rw [hbytes] at h
    cases h
    have hparse := parseFixedHex_formatFixedHex bytes field
    rw [parseFixedHex_length hbytes] at hparse
    rw [hparse]
    rfl

/-- A normalized signature is normalized to itself. -/
theorem normalizeSignature_idem {signature normal : Text}
    (h : normalizeSignature signature = .ok normal) : normalizeSignature normal = .ok normal :=
  fixedHex_idem h

/-- A normalized id is normalized to itself. -/
theorem normalizeProposalId_idem {proposalId normal : Text}
    (h : normalizeProposalId proposalId = .ok normal) : normalizeProposalId normal = .ok normal :=
  fixedHex_idem h

/-! ## Reading a stored proposal -/

section MapM
variable {ε α β : Type} {f : α → Except ε β}

theorem mapM_ok {g : α → β} {values : List α} (h : ∀ a ∈ values, f a = .ok (g a)) :
    values.mapM f = .ok (values.map g) := by
  induction values with
  | nil => rfl
  | cons a rest ih =>
    rw [List.mapM_cons, h a List.mem_cons_self, ih fun b hb => h b (List.mem_cons_of_mem _ hb)]
    rfl

theorem length_mapM {values : List α} {results : List β} (h : values.mapM f = .ok results) :
    results.length = values.length := by
  induction values generalizing results with
  | nil => cases h; rfl
  | cons a rest ih =>
    rw [List.mapM_cons] at h
    obtain ⟨b, hb, h⟩ := Multisig.bind_eq_ok.mp h
    obtain ⟨bs, hbs, h⟩ := Multisig.bind_eq_ok.mp h
    cases h
    rw [List.length_cons, List.length_cons, ih hbs]

theorem exists_of_mem_mapM {values : List α} {results : List β} (h : values.mapM f = .ok results)
    {b : β} (hb : b ∈ results) : ∃ a, f a = .ok b := by
  induction values generalizing results with
  | nil => cases h; cases hb
  | cons a rest ih =>
    rw [List.mapM_cons] at h
    obtain ⟨first, hfirst, h⟩ := Multisig.bind_eq_ok.mp h
    obtain ⟨others, hothers, h⟩ := Multisig.bind_eq_ok.mp h
    cases h
    obtain rfl | hb := List.mem_cons.mp hb
    · exact ⟨a, hfirst⟩
    · exact ih hothers hb

end MapM

/-- Signer and signature are in normal form. -/
structure EvmProposalSignature.Normal (s : EvmProposalSignature) : Prop where
  signer : normalizeEvmAddress s.signer = .ok s.signer
  signature : normalizeSignature s.signature = .ok s.signature

/-- No signer twice. -/
def EvmProposal.Distinct (p : EvmProposal) : Prop :=
  p.signatures.Pairwise fun a b => eqIgnoreAsciiCase a.signer b.signer = false

/-- A signature as it is read back: the time of signing goes through its text. -/
def EvmProposalSignature.reread (s : EvmProposalSignature) : EvmProposalSignature :=
  { s with signedAt := (parseI64 (toString s.signedAt)).getD 0 }

theorem tryFrom_normal {value : CosignerSignature} {s : EvmProposalSignature}
    (h : EvmProposalSignature.tryFrom value = .ok s) : s.Normal := by
  rw [EvmProposalSignature.tryFrom] at h
  split at h
  · obtain ⟨signature, hsignature, h⟩ := Multisig.bind_eq_ok.mp h
    obtain ⟨signer, hsigner, h⟩ := Multisig.bind_eq_ok.mp h
    cases h
    refine ⟨@normalizeEvmAddress_idem value.signerId signer ?_,
      normalizeSignature_idem hsignature⟩
    cases haddress : normalizeEvmAddress value.signerId with
    | ok address => rw [haddress] at hsigner; cases hsigner; rfl
    | error e => rw [haddress] at hsigner; cases hsigner
  · cases h

theorem tryFrom_ofEvm {s : EvmProposalSignature} (h : s.Normal) :
    EvmProposalSignature.tryFrom (.ofEvm s) = .ok s.reread := by
  show (do
    let signature ← normalizeSignature s.signature
    let signer ← (normalizeEvmAddress s.signer).mapError .invalidInput
    return (⟨signer, signature, (parseI64 (toString s.signedAt)).getD 0⟩ : EvmProposalSignature)) =
      Except.ok s.reread
  rw [h.signature, h.signer]
  rfl

namespace EvmProposal

theorem fromDelta_spec {commitment : Text} {delta : Delta} {p : EvmProposal}
    (h : fromDelta commitment delta = .ok p) :
    p.proposalId = commitment ∧ ∃ timestamp proposerId sigs,
      delta.status = .pending timestamp proposerId sigs ∧
      sigs.mapM EvmProposalSignature.tryFrom = .ok p.signatures := by
  rw [fromDelta] at h
  split at h
  · cases h
  · split at h
    · cases h
    · rename_i hid
      split at h
      · cases h
      · rename_i timestamp proposerId sigs hstatus
        obtain ⟨signatures, hsigs, h⟩ := Multisig.bind_eq_ok.mp h
        cases h
        exact ⟨not_not.mp hid, timestamp, proposerId, sigs, hstatus, hsigs⟩

/-- What was read is in normal form. -/
theorem fromDelta_normal {commitment : Text} {delta : Delta} {p : EvmProposal}
    (h : fromDelta commitment delta = .ok p) : ∀ s ∈ p.signatures, s.Normal := by
  obtain ⟨-, -, -, sigs, -, hsigs⟩ := fromDelta_spec h
  intro s hs
  obtain ⟨value, hvalue⟩ := exists_of_mem_mapM hsigs hs
  exact tryFrom_normal hvalue

/-- What was written in normal form reads back, under the account it is written
for. -/
theorem fromDelta_intoDelta {p : EvmProposal} (h : ∀ s ∈ p.signatures, s.Normal) :
    fromDelta p.proposalId p.intoDelta =
      .ok { p with
        accountId := evmAccountId p.chainId p.smartAccountAddress
        signatures := p.signatures.map EvmProposalSignature.reread } := by
  have hsigs : (p.signatures.map CosignerSignature.ofEvm).mapM EvmProposalSignature.tryFrom =
      .ok (p.signatures.map EvmProposalSignature.reread) := by
    rw [List.mapM_map]
    exact mapM_ok fun s hs => tryFrom_ofEvm (h s hs)
  have hkind : ¬p.intoDelta.deltaPayload.kind ≠ evmProposalKind := fun h => h rfl
  have hid : ¬p.intoDelta.deltaPayload.proposalId ≠ p.proposalId := fun h => h rfl
  have hstatus : p.intoDelta.status = .pending (toString p.createdAt) p.proposer
      (p.signatures.map CosignerSignature.ofEvm) := rfl
  rw [fromDelta, if_neg hkind, if_neg hid, hstatus]
  dsimp only
  rw [hsigs]
  rfl

end EvmProposal

end Guardian.Evm
