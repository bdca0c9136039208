import Guardian.Metadata
import Guardian.Replay.Floors

/- What a multisig account state says about its signers and its thresholds
   (`network/miden/account_inspector.rs`, `shared/src/multisig_threshold.rs`).

   A state is its storage slots and the procedures of its code. A field element
   is its canonical value, a word is four of them. `Slots` is what the miden
   packages decide of a state: the root a map slot reads as, the id each scheme
   is stored under, and the MAST roots of the procedures the proposals call.

   The signer map is read from index 0 to the first empty entry, so the
   approvers of a state are the entries below that index
   (`getElem?_approverKeys`). -/
namespace Guardian.Multisig

/-! ## Words -/

structure Word where
  w0 : UInt64
  w1 : UInt64
  w2 : UInt64
  w3 : UInt64
  deriving DecidableEq, Repr

/-- `Word::default`, what a map holds where nothing was written. -/
def Word.default : Word := ⟨0, 0, 0, 0⟩

/-- `Word::from([n, 0, 0, 0])`. -/
def Word.ofIndex (n : Nat) : Word := ⟨UInt64.ofNat n, 0, 0, 0⟩

/-- The lowest `k` bytes of a number, lowest first. -/
def leBytes : Nat → Nat → List UInt8
  | 0, _ => []
  | k + 1, n => UInt8.ofNat (n % 256) :: leBytes k (n / 256)

/-- The eight bytes of a field element. -/
def feltBytes (x : UInt64) : List UInt8 := leBytes 8 x.toNat

/-- `Word::to_bytes`. -/
def Word.toBytes (w : Word) : List UInt8 :=
  feltBytes w.w0 ++ feltBytes w.w1 ++ feltBytes w.w2 ++ feltBytes w.w3

/-- `commitment_hex`, the way account metadata writes a key commitment. -/
def commitmentHex (w : Word) : String := Replay.signerCommitment w.toBytes

theorem length_leBytes (k n : Nat) : (leBytes k n).length = k := by
  induction k generalizing n with
  | zero => rfl
  | succ k ih => rw [leBytes, List.length_cons, ih]

theorem leBytes_inj {k m n : Nat} (hm : m < 256 ^ k) (hn : n < 256 ^ k)
    (h : leBytes k m = leBytes k n) : m = n := by
  induction k generalizing m n with
  | zero => omega
  | succ k ih =>
    rw [leBytes, leBytes, List.cons.injEq] at h
    have hlow : m % 256 = n % 256 := by
      have := congrArg UInt8.toNat h.1
      simpa [UInt8.toNat_ofNat'] using this
    have hhigh : m / 256 = n / 256 := by
      refine ih (Nat.div_lt_of_lt_mul ?_) (Nat.div_lt_of_lt_mul ?_) h.2
      · rw [Nat.pow_succ] at hm; omega
      · rw [Nat.pow_succ] at hn; omega
    omega

theorem length_feltBytes (x : UInt64) : (feltBytes x).length = 8 := length_leBytes 8 _

theorem feltBytes_inj {x y : UInt64} (h : feltBytes x = feltBytes y) : x = y :=
  UInt64.toNat_inj.mp (leBytes_inj x.toNat_lt y.toNat_lt h)

theorem Word.toBytes_inj {v w : Word} (h : v.toBytes = w.toBytes) : v = w := by
  obtain ⟨v0, v1, v2, v3⟩ := v
  obtain ⟨w0, w1, w2, w3⟩ := w
  simp only [Word.toBytes] at h
  obtain ⟨h, h3⟩ := List.append_inj' h (by simp only [length_feltBytes])
  obtain ⟨h, h2⟩ := List.append_inj' h (by simp only [length_feltBytes])
  obtain ⟨h0, h1⟩ := List.append_inj' h (by simp only [length_feltBytes])
  rw [feltBytes_inj h0, feltBytes_inj h1, feltBytes_inj h2, feltBytes_inj h3]

theorem hexDigits_getD_inj : ∀ m < 16, ∀ n < 16,
    Replay.hexDigits.getD m '0' = Replay.hexDigits.getD n '0' → m = n := by decide

theorem hexEncode_inj {bs cs : List UInt8} (h : Replay.hexEncode bs = Replay.hexEncode cs) :
    bs = cs := by
  have hchars := congrArg String.toList h
  simp only [Replay.hexEncode, String.toList_ofList] at hchars
  clear h
  induction bs generalizing cs with
  | nil =>
    cases cs with
    | nil => rfl
    | cons c cs => simp at hchars
  | cons b bs ih =>
    cases cs with
    | nil => simp at hchars
    | cons c cs =>
      simp only [List.flatMap_cons, List.cons_append, List.nil_append, List.cons.injEq] at hchars
      obtain ⟨hhigh, hlow, hrest⟩ := hchars
      have hb := b.toNat_lt
      have hc := c.toNat_lt
      have h1 := hexDigits_getD_inj _ (by omega) _ (by omega) hhigh
      have h2 := hexDigits_getD_inj _ (by omega) _ (by omega) hlow
      have hbc : b = c := UInt8.toNat_inj.mp (by omega)
      rw [hbc, ih hrest]

theorem commitmentHex_inj {v w : Word} (h : commitmentHex v = commitmentHex w) : v = w := by
  have hchars := congrArg String.toList h
  simp only [commitmentHex, Replay.signerCommitment, String.toList_append,
    List.append_cancel_left_eq] at hchars
  exact Word.toBytes_inj (hexEncode_inj (String.toList_inj.mp hchars))

/-- `str::to_ascii_lowercase`. -/
def toAsciiLowercase (s : String) : String := String.ofList (s.toList.map Char.toLower)

/-- A commitment is written in lower case. -/
theorem toAsciiLowercase_commitmentHex (w : Word) :
    toAsciiLowercase (commitmentHex w) = commitmentHex w := by
  have hlower : ∀ text : List Char, text.all (fun c => c.toLower == c) = true →
      ∀ c ∈ text, c.toLower = c := fun text h c hc => beq_iff_eq.mp (List.all_eq_true.mp h c hc)
  have hchars : ∀ c ∈ (commitmentHex w).toList, c.toLower = c := by
    intro c hc
    rw [commitmentHex, Replay.signerCommitment, String.toList_append, List.mem_append] at hc
    obtain hc | hc := hc
    · exact hlower "0x".toList (by decide) c hc
    · exact hlower Replay.hexDigits (by decide) c (Replay.hexEncode_digits hc)
  rw [toAsciiLowercase, List.map_congr_left (g := id) hchars, List.map_id, String.ofList_toList]

/-- `str::eq_ignore_ascii_case`. -/
def eqIgnoreAsciiCase (a b : String) : Bool := toAsciiLowercase a == toAsciiLowercase b

theorem eqIgnoreAsciiCase_commitmentHex (v w : Word) :
    eqIgnoreAsciiCase (commitmentHex v) (commitmentHex w) = true ↔ v = w := by
  rw [eqIgnoreAsciiCase, toAsciiLowercase_commitmentHex, toAsciiLowercase_commitmentHex,
    beq_iff_eq]
  exact ⟨commitmentHex_inj, congrArg commitmentHex⟩

/-! ## The state -/

/-- The names the multisig component gives its storage slots. -/
inductive SlotName where
  | thresholdConfig
  | approverPublicKeys
  | approverSchemeIds
  | procedureThresholds
  | other (name : String)
  deriving DecidableEq, Repr

inductive StorageSlot where
  | value (word : Word)
  | map (entries : List (Word × Word))
  deriving DecidableEq, Repr

/-- An account state: its storage, and the MAST roots of its code's procedures
with the auth procedure first. -/
structure Account where
  storage : List (SlotName × StorageSlot)
  procedures : List Word
  deriving DecidableEq, Repr

/-- An account procedure a proposal type calls whose threshold can be
overridden. -/
inductive ThresholdProcedure where
  | updateSigners
  | setProcedureThreshold
  | updateGuardian
  | sendAsset
  | createNote
  | receiveAsset
  deriving DecidableEq, Repr

/-- What the miden packages decide of a state. -/
structure Slots where
  /-- `StorageMap::root`, what `get_item` reads of a map slot. -/
  mapRoot : List (Word × Word) → Word
  authSchemeId : SignatureScheme → UInt64
  /-- `ThresholdProcedure::root`. -/
  root : ThresholdProcedure → Word

namespace Account
variable (S : Slots) (account : Account)

/-- `AccountStorage::get`. -/
def slot (name : SlotName) : Option StorageSlot := account.storage.lookup name

/-- `AccountStorage::get_item`. -/
def getItem (name : SlotName) : Option Word :=
  match account.slot name with
  | none => none
  | some (.value word) => some word
  | some (.map entries) => some (S.mapRoot entries)

/-- `AccountStorage::get_map_item`. -/
def getMapItem (name : SlotName) (key : Word) : Option Word :=
  match account.slot name with
  | some (.map entries) => some ((entries.lookup key).getD Word.default)
  | _ => none

/-! ## Signers -/

/-- `has_multisig_auth`. -/
def hasMultisigAuth : Bool := (account.getItem S .thresholdConfig).isSome

/-- `has_approver_scheme_map`. -/
def hasApproverSchemeMap : Bool := (account.slot .approverSchemeIds).isSome

/-- The key of the approver at a signer index, if the map holds one there. -/
def approverAt (index : Nat) : Option Word :=
  (account.getMapItem .approverPublicKeys (Word.ofIndex index)).filter (· != Word.default)

/-- The loop of `extract_map_pubkeys`, from `index` on. -/
def extractFrom : Nat → Nat → List Word
  | 0, _ => []
  | fuel + 1, index =>
    match account.approverAt index with
    | some key => key :: extractFrom fuel (index + 1)
    | none => []

/-- The signer index is a `u32`. -/
def signerIndices : Nat := 2 ^ 32

/-- The keys of the signer map, up to the first empty entry. -/
def approverKeys : List Word := account.extractFrom signerIndices 0

/-- `extract_pubkeys`. -/
def extractPubkeys : List String := account.approverKeys.map commitmentHex

/-- `SignatureScheme::from_auth_scheme_id`. -/
def fromAuthSchemeId (id : UInt64) : Option SignatureScheme :=
  [SignatureScheme.falcon, .ecdsa].find? (S.authSchemeId · == id)

/-- `scheme_at` of the approver scheme map. -/
def schemeAt (index : Nat) : Option SignatureScheme := do
  let value ← account.getMapItem .approverSchemeIds (Word.ofIndex index)
  fromAuthSchemeId S value.w0

/-- `extract_approver_schemes`. -/
def extractApproverSchemes (count : Nat) : List (Option SignatureScheme) :=
  (List.range count).map (account.schemeAt S)

/-- `extract_chain_cosigners`. -/
def extractChainCosigners : List ChainCosigner :=
  let commitments := account.extractPubkeys
  let schemes := account.extractApproverSchemes S commitments.length
  commitments.zipWith ChainCosigner.mk schemes

/-! ## Thresholds -/

/-- `value as u32`. -/
def asU32 (x : UInt64) : Nat := x.toNat % 2 ^ 32

/-- `default_threshold`. -/
def defaultThreshold : Option Nat :=
  (account.getItem S .thresholdConfig).map fun config => asU32 config.w0

/-- `procedure_override`: a zero entry is no override. -/
def procedureOverride (root : Word) : Option Nat :=
  ((account.getMapItem .procedureThresholds root).map fun entry => asU32 entry.w0).filter (· != 0)

/-! ## Reading the signer map -/

theorem getElem?_extractFrom (fuel index i : Nat) :
    (account.extractFrom fuel index)[i]? =
      if i < fuel ∧ ∀ j ≤ i, (account.approverAt (index + j)).isSome then
        account.approverAt (index + i) else none := by
  induction fuel generalizing index i with
  | zero => simp [extractFrom]
  | succ fuel ih =>
    rw [extractFrom]
    cases hat : account.approverAt index with
    | none =>
      have hstop : ¬ ∀ j ≤ i, (account.approverAt (index + j)).isSome := by
        intro hall
        have := hall 0 (Nat.zero_le i)
        rw [Nat.add_zero, hat] at this
        exact absurd this Bool.false_ne_true
      rw [if_neg fun h => hstop h.2]
      rfl
    | some first =>
      cases i with
      | zero => simp [hat]
      | succ i =>
        show (account.extractFrom fuel (index + 1))[i]? = _
        rw [ih, show index + 1 + i = index + (i + 1) by omega]
        congr 1
        rw [eq_iff_iff]
        constructor
        · rintro ⟨hi, hall⟩
          refine ⟨by omega, fun j hj => ?_⟩
          cases j with
          | zero => rw [Nat.add_zero, hat]; rfl
          | succ j =>
            rw [show index + (j + 1) = index + 1 + j by omega]
            exact hall j (by omega)
        · rintro ⟨hi, hall⟩
          refine ⟨by omega, fun j hj => ?_⟩
          rw [show index + 1 + j = index + (j + 1) by omega]
          exact hall (j + 1) (by omega)

/-- The approvers are the entries below the first empty index. -/
theorem getElem?_approverKeys (i : Nat) :
    account.approverKeys[i]? =
      if i < signerIndices ∧ ∀ j ≤ i, (account.approverAt j).isSome then account.approverAt i
      else none := by
  rw [approverKeys, getElem?_extractFrom]
  simp only [Nat.zero_add]

end Account

/-! ## What the chain demands -/

/-- What a proposal does, as far as its threshold goes. -/
inductive ThresholdedTransaction where
  | updateSigners
  | setProcedureThreshold
  | updateGuardian
  | p2id
  | consumeNotes
  | accountDefault
  deriving DecidableEq, Repr

/-- The overridable procedures the transaction calls. -/
def ThresholdedTransaction.procedures : ThresholdedTransaction → List ThresholdProcedure
  | .updateSigners => [.updateSigners]
  | .setProcedureThreshold => [.setProcedureThreshold]
  | .updateGuardian => [.updateGuardian]
  | .p2id => [.sendAsset, .createNote]
  | .consumeNotes => [.receiveAsset]
  | .accountDefault => []

namespace Account
variable (S : Slots) (account : Account)

/-- The highest threshold among the called procedures, else the default. -/
def thresholdOf (roots : List Word) : Option Nat := do
  let default ← account.defaultThreshold S
  return ((roots.map fun root => (account.procedureOverride root).getD default).max?).getD default

/-- The override the chain reads, the field element itself. -/
def chainOverride (root : Word) : Option Nat :=
  ((account.getMapItem .procedureThresholds root).map fun entry => entry.w0.toNat).filter (· != 0)

/-- The default threshold the chain reads. -/
def chainDefault : Nat :=
  ((account.getItem S .thresholdConfig).map fun config => config.w0.toNat).getD 0

/-- `compute_transaction_threshold` on chain, over the procedures a transaction
calls: each contributes its override or the default, and the highest applies. -/
def chainThreshold (called : List Word) : Nat :=
  ((called.map fun root => (account.chainOverride root).getD (account.chainDefault S)).max?).getD
    (account.chainDefault S)

end Account

/-- `ThresholdedTransaction::threshold`. -/
def ThresholdedTransaction.threshold (S : Slots) (tx : ThresholdedTransaction)
    (account : Account) : Option Nat :=
  account.thresholdOf S (tx.procedures.map S.root)

end Guardian.Multisig
