import Guardian.Evm.Proposal
import Guardian.Lib.BigEndian

/- The nonce arithmetic of `evm/proposal.rs`, on its 32 bytes.

   `Evm.parseU256` reads a nonce as a number; here it is read the way the server
   does, a digit at a time into an array of bytes, with a carry in a word of 16 bits.
   Each loop is followed by what it does to the number the bytes stand for. The two
   readings agree (`parse_value`), so what the rest of the development says of a
   nonce it says of these bytes. -/
namespace Guardian.Evm.Nonce

open Bytes

/-- `[u8; 32]`, the most significant byte first. -/
structure U256 where
  bytes : List UInt8
  length_eq : bytes.length = 32
  deriving DecidableEq, Repr

def U256.value (n : U256) : Nat := bigEndian n.bytes

def U256.zero : U256 := ⟨List.replicate 32 0, by decide⟩

theorem U256.value_lt (n : U256) : n.value < 2 ^ 256 := by
  have h := bigEndian_lt n.bytes
  rw [n.length_eq] at h
  exact h

theorem U256.ext_value {m n : U256} (h : m.value = n.value) : m = n := by
  obtain ⟨bs, hbs⟩ := m
  obtain ⟨bs', hbs'⟩ := n
  have hbytes : bs = bs' := bigEndian_inj (hbs.trans hbs'.symm) h
  subst hbytes
  rfl

theorem U256.value_zero : U256.zero.value = 0 := bigEndian_zeros 32

/-- A little-endian result, put back in its place. -/
def U256.ofReversed (bytes : List UInt8) (h : bytes.length = 32) : U256 :=
  ⟨bytes.reverse, List.length_reverse.trans h⟩

theorem U256.value_ofReversed (bytes : List UInt8) (h : bytes.length = 32) :
    (U256.ofReversed bytes h).value = littleEndian bytes := by
  rw [U256.value, U256.ofReversed, bigEndian, List.reverse_reverse]

theorem U256.littleEndian_reverse (n : U256) : littleEndian n.bytes.reverse = n.value := rfl

theorem U256.length_reverse (n : U256) : n.bytes.reverse.length = 32 :=
  List.length_reverse.trans n.length_eq

def exceeds : EvmError := .invalidEvmProposal "nonce exceeds uint256"

/-! ## Multiply and add -/

/-- The loop of `multiply_u256_small`, from the last byte to the first. -/
def multiplyLoop (factor : UInt8) : UInt16 → List UInt8 → List UInt8 × UInt16
  | carry, [] => ([], carry)
  | carry, byte :: rest =>
    let next := byte.toUInt16 * factor.toUInt16 + carry
    let later := multiplyLoop factor (highByte next) rest
    (lowByte next :: later.1, later.2)

theorem length_multiplyLoop (factor : UInt8) (carry : UInt16) (bs : List UInt8) :
    (multiplyLoop factor carry bs).1.length = bs.length := by
  induction bs generalizing carry with
  | nil => rfl
  | cons byte rest ih => rw [multiplyLoop, List.length_cons, ih, List.length_cons]

/-- `multiply_u256_small`. -/
def multiplyU256Small (n : U256) (factor : UInt8) : Except EvmError U256 :=
  if 0 < (multiplyLoop factor 0 n.bytes.reverse).2 then .error exceeds
  else .ok (U256.ofReversed (multiplyLoop factor 0 n.bytes.reverse).1
    ((length_multiplyLoop _ _ _).trans n.length_reverse))

/-- The word of 16 bits never overflows: the carry into a byte fits in a byte. -/
theorem toNat_product (byte factor : UInt8) {carry : UInt16} (hc : carry.toNat < 256) :
    (byte.toUInt16 * factor.toUInt16 + carry).toNat = byte.toNat * factor.toNat + carry.toNat := by
  have hb : byte.toNat ≤ 255 := by have := byte.toNat_lt; omega
  have hf : factor.toNat ≤ 255 := by have := factor.toNat_lt; omega
  have hmul : byte.toNat * factor.toNat ≤ 255 * 255 := Nat.mul_le_mul hb hf
  rw [UInt16.toNat_add, UInt16.toNat_mul, UInt8.toNat_toUInt16, UInt8.toNat_toUInt16]
  omega

theorem multiplyLoop_value (factor : UInt8) {carry : UInt16} (hc : carry.toNat < 256)
    (bs : List UInt8) :
    littleEndian (multiplyLoop factor carry bs).1 +
        256 ^ bs.length * (multiplyLoop factor carry bs).2.toNat =
      factor.toNat * littleEndian bs + carry.toNat := by
  induction bs generalizing carry with
  | nil => simp [multiplyLoop, littleEndian]
  | cons byte rest ih =>
    have hnext := toNat_product byte factor hc
    generalize hn : byte.toUInt16 * factor.toUInt16 + carry = next at hnext
    have hhigh : (highByte next).toNat < 256 := by
      have := next.toNat_lt
      rw [toNat_highByte]
      omega
    have hrest := ih hhigh
    rw [multiplyLoop]
    simp only [hn, littleEndian, List.length_cons, toNat_lowByte, Nat.pow_succ]
    rw [toNat_highByte] at hrest
    -- the byte and its carry are the word again
    have hsplit : next.toNat % 256 + 256 * (next.toNat / 256) = next.toNat := Nat.mod_add_div _ _
    generalize (multiplyLoop factor (highByte next) rest) = later at hrest ⊢
    calc next.toNat % 256 + 256 * littleEndian later.1 + 256 ^ rest.length * 256 * later.2.toNat
        = next.toNat % 256 +
            256 * (littleEndian later.1 + 256 ^ rest.length * later.2.toNat) := by ring
      _ = next.toNat % 256 +
            256 * (factor.toNat * littleEndian rest + next.toNat / 256) := by rw [hrest]
      _ = (next.toNat % 256 + 256 * (next.toNat / 256)) +
            256 * (factor.toNat * littleEndian rest) := by ring
      _ = factor.toNat * (byte.toNat + 256 * littleEndian rest) + carry.toNat := by
        rw [hsplit, hnext]
        ring

/-- The product if it is a `uint256`. -/
theorem multiplyU256Small_spec (n : U256) (factor : UInt8) :
    if factor.toNat * n.value < 2 ^ 256 then
      ∃ product, multiplyU256Small n factor = .ok product ∧ product.value = factor.toNat * n.value
    else multiplyU256Small n factor = .error exceeds := by
  have hzero : (0 : UInt16).toNat < 256 := by decide
  have hloop := multiplyLoop_value factor hzero n.bytes.reverse
  have hlen := length_multiplyLoop factor 0 n.bytes.reverse
  have hlow := littleEndian_lt (multiplyLoop factor 0 n.bytes.reverse).1
  have hmod : (256 : Nat) ^ 32 = 2 ^ 256 := by decide
  rw [hlen, n.length_reverse, hmod] at hlow
  rw [n.length_reverse, hmod, n.littleEndian_reverse] at hloop
  simp only [multiplyU256Small, UInt16.lt_iff_toNat_lt, UInt16.toNat_zero] at hloop ⊢
  split
  · have hfits : ¬ 0 < (multiplyLoop factor 0 n.bytes.reverse).2.toNat := by
      intro hpos
      have := Nat.mul_le_mul_left (2 ^ 256) hpos
      omega
    rw [if_neg hfits]
    refine ⟨_, rfl, ?_⟩
    rw [U256.value_ofReversed]
    have hnone : (multiplyLoop factor 0 n.bytes.reverse).2.toNat = 0 := by omega
    rw [hnone] at hloop
    omega
  · rename_i hover
    have hpos : 0 < (multiplyLoop factor 0 n.bytes.reverse).2.toNat := by
      by_contra hzero
      have hnone : (multiplyLoop factor 0 n.bytes.reverse).2.toNat = 0 := by omega
      rw [hnone] at hloop
      omega
    rw [if_pos hpos]

/-- The loop of `add_u256_small`: it ends at the first byte that passes on no carry. -/
def addLoop : UInt16 → List UInt8 → Option (List UInt8)
  | _, [] => none
  | carry, byte :: rest =>
    let next := byte.toUInt16 + carry
    if highByte next = 0 then some (lowByte next :: rest)
    else (addLoop (highByte next) rest).map (lowByte next :: ·)

theorem length_addLoop {carry : UInt16} {bs sum : List UInt8} (h : addLoop carry bs = some sum) :
    sum.length = bs.length := by
  induction bs generalizing carry sum with
  | nil => cases h
  | cons byte rest ih =>
    rw [addLoop] at h
    split at h
    · cases h
      rfl
    · obtain ⟨later, hlater, rfl⟩ := Option.map_eq_some_iff.mp h
      rw [List.length_cons, List.length_cons, ih hlater]

/-- `add_u256_small`. -/
def addU256Small (n : U256) (value : UInt8) : Except EvmError U256 :=
  match h : addLoop value.toUInt16 n.bytes.reverse with
  | some sum => .ok (U256.ofReversed sum ((length_addLoop h).trans n.length_reverse))
  | none => .error exceeds

theorem toNat_sum (byte : UInt8) {carry : UInt16} (hc : carry.toNat < 256) :
    (byte.toUInt16 + carry).toNat = byte.toNat + carry.toNat := by
  have hb := byte.toNat_lt
  rw [UInt16.toNat_add, UInt8.toNat_toUInt16]
  omega

theorem addLoop_value {carry : UInt16} (hc : carry.toNat < 256) {bs sum : List UInt8}
    (h : addLoop carry bs = some sum) : littleEndian sum = littleEndian bs + carry.toNat := by
  induction bs generalizing carry sum with
  | nil => cases h
  | cons byte rest ih =>
    have hnext := toNat_sum byte hc
    have hbyte := byte.toNat_lt
    rw [addLoop] at h
    generalize byte.toUInt16 + carry = next at hnext h
    have hhigh := toNat_highByte next
    split at h
    next hzero =>
      cases h
      rw [hzero, UInt16.toNat_zero] at hhigh
      rw [littleEndian, littleEndian, toNat_lowByte]
      omega
    next hcarry =>
      obtain ⟨later, hlater, rfl⟩ := Option.map_eq_some_iff.mp h
      have hrest := ih (by omega) hlater
      rw [littleEndian, littleEndian, toNat_lowByte, hrest, hhigh]
      omega

/-- A carry left after the last byte: the sum has no room. -/
theorem addLoop_none {carry : UInt16} (hc : carry.toNat < 256) {bs : List UInt8}
    (hsome : bs ≠ [] ∨ 0 < carry.toNat) (h : addLoop carry bs = none) :
    256 ^ bs.length ≤ littleEndian bs + carry.toNat := by
  induction bs generalizing carry with
  | nil =>
    obtain hne | hpos := hsome
    · exact absurd rfl hne
    · simp only [littleEndian, List.length_nil, Nat.pow_zero]
      omega
  | cons byte rest ih =>
    have hnext := toNat_sum byte hc
    have hbyte := byte.toNat_lt
    rw [addLoop] at h
    generalize byte.toUInt16 + carry = next at hnext h
    have hhigh := toNat_highByte next
    split at h
    next hzero => cases h
    next hcarry =>
      have hpos : 0 < (highByte next).toNat := by
        rw [← UInt16.toNat_inj, UInt16.toNat_zero] at hcarry
        omega
      have hrest := ih (by omega) (.inr hpos) (Option.map_eq_none_iff.mp h)
      rw [littleEndian, List.length_cons, Nat.pow_succ]
      omega

/-- The sum if it is a `uint256`. -/
theorem addU256Small_spec (n : U256) (value : UInt8) :
    if n.value + value.toNat < 2 ^ 256 then
      ∃ sum, addU256Small n value = .ok sum ∧ sum.value = n.value + value.toNat
    else addU256Small n value = .error exceeds := by
  have hcarry : value.toUInt16.toNat < 256 := by
    rw [UInt8.toNat_toUInt16]
    exact value.toNat_lt
  have hmod : (256 : Nat) ^ 32 = 2 ^ 256 := by decide
  rw [addU256Small]
  split
  next hfits =>
    split
    next sum hsum =>
      refine ⟨_, rfl, ?_⟩
      rw [U256.value_ofReversed, addLoop_value hcarry hsum, UInt8.toNat_toUInt16]
      rfl
    next hnone =>
      have hne : n.bytes.reverse ≠ [] := by
        intro hnil
        have := n.length_reverse
        rw [hnil] at this
        cases this
      have hfull := addLoop_none hcarry (.inl hne) hnone
      rw [n.length_reverse, hmod, n.littleEndian_reverse, UInt8.toNat_toUInt16] at hfull
      omega
  next hover =>
    split
    next sum hsum =>
      have hvalue := addLoop_value hcarry hsum
      have hlt := littleEndian_lt sum
      rw [length_addLoop hsum, n.length_reverse, hmod, hvalue, UInt8.toNat_toUInt16,
        n.littleEndian_reverse] at hlt
      omega
    next hnone => rfl

/-! ## Parsing -/

/-- The loop of `parse_u256` over the digits of a decimal. -/
def parseLoop : U256 → Text → Except EvmError U256
  | n, [] => .ok n
  | n, digit :: rest => do
    let product ← multiplyU256Small n 10
    let sum ← addU256Small product (UInt8.ofNat (digit.toNat - 48))
    parseLoop sum rest

/-- `parse_u256`. The last branch of the first case is its `expect`. -/
def parseU256 (value : String) : Except EvmError U256 :=
  match value.toList with
  | '0' :: 'x' :: hexValue =>
    if 64 < utf8Len hexValue then .error exceeds
    else if hexValue.all isAsciiHexdigit then
      match hexDecode (hexValue.leftpad 64 '0') with
      | some bytes => if h : bytes.length = 32 then .ok ⟨bytes, h⟩ else .error .panicked
      | none => .error (.invalidHex "nonce")
    else .error (.invalidEvmProposal "nonce hex value is invalid")
  | text =>
    let digits := trim text
    if digits.isEmpty || !digits.all Char.isDigit then
      .error (.invalidEvmProposal "nonce must be a decimal string or 0x-prefixed hex")
    else parseLoop U256.zero digits

theorem toNat_digit {digit : Char} (h : digit.isDigit = true) :
    (UInt8.ofNat (digit.toNat - 48)).toNat = digit.toNat - 48 ∧ digit.toNat - 48 < 10 := by
  have hle : digit.toNat ≤ 57 := by
    simp only [Char.isDigit, Bool.and_eq_true, decide_eq_true_eq] at h
    exact h.2
  rw [UInt8.toNat_ofNat']
  omega

theorem bind_parsed {α β : Type} (a : α) (next : α → Except EvmError β) :
    ((.ok a : Except EvmError α) >>= next) = next a := rfl

/-- The loop on bytes is the loop on numbers: a product with no room is a sum with none. -/
theorem parseLoop_value {digits : Text} (hdigits : ∀ c ∈ digits, c.isDigit = true) (n : U256) :
    (parseLoop n digits).map U256.value = parseDecimal n.value digits := by
  induction digits generalizing n with
  | nil => rfl
  | cons digit rest ih =>
    obtain ⟨hdigit, hrest⟩ := List.forall_mem_cons.mp hdigits
    obtain ⟨hvalue, hten⟩ := toNat_digit hdigit
    have hmul := multiplyU256Small_spec n 10
    have hfactor : (10 : UInt8).toNat = 10 := rfl
    rw [hfactor] at hmul
    rw [parseLoop, parseDecimal]
    by_cases hproduct : 10 * n.value < 2 ^ 256
    · rw [if_pos hproduct] at hmul
      obtain ⟨product, hok, hproductValue⟩ := hmul
      have hadd := addU256Small_spec product (UInt8.ofNat (digit.toNat - 48))
      rw [hvalue, hproductValue] at hadd
      rw [hok, bind_parsed]
      split at hadd
      next hfits =>
        obtain ⟨sum, hsum, hsumValue⟩ := hadd
        rw [hsum, bind_parsed, if_pos hfits, ih hrest sum, hsumValue]
      next hover =>
        rw [hadd, if_neg hover]
        rfl
    · rw [if_neg hproduct] at hmul
      have hover : ¬ 10 * n.value + (digit.toNat - 48) < 2 ^ 256 := by omega
      rw [hmul, if_neg hover]
      rfl

/-- The number of a string of hexadecimal digits. -/
def hexValue (digits : Text) : Nat := digits.foldl (fun n c => 16 * n + (hexNibble c).getD 0) 0

theorem hexNibble_lt {c : Char} {v : Nat} (h : hexNibble c = some v) : v < 16 := by
  unfold hexNibble at h
  split at h
  next hdigit =>
    cases h
    have hle : c.toNat ≤ 57 := hdigit.2
    omega
  next =>
    split at h
    next hlower =>
      cases h
      have hle : c.toNat ≤ 102 := hlower.2
      omega
    next =>
      split at h
      next hupper =>
        cases h
        have hle : c.toNat ≤ 70 := hupper.2
        omega
      next => cases h

theorem hexValue_from (digits : Text) (n : Nat) :
    digits.foldl (fun n c => 16 * n + (hexNibble c).getD 0) n =
      n * 16 ^ digits.length + hexValue digits := by
  induction digits generalizing n with
  | nil => simp [hexValue]
  | cons c rest ih =>
    rw [hexValue, List.foldl_cons, List.foldl_cons, ih, ih, List.length_cons, Nat.pow_succ]
    ring

theorem hexValue_leftpad (k : Nat) (digits : Text) :
    hexValue (digits.leftpad k '0') = hexValue digits := by
  have hzeros : ∀ m, hexValue (List.replicate m '0') = 0 := by
    intro m
    induction m with
    | zero => rfl
    | succ m ih =>
      rw [List.replicate_succ, hexValue, List.foldl_cons, hexValue_from, ih]
      simp [hexNibble]
  rw [List.leftpad, hexValue, List.foldl_append, hexValue_from, ← hexValue, hzeros, Nat.zero_mul,
    Nat.zero_add]

/-- Two hexadecimal digits are a byte. -/
theorem hexDecode_value {digits : Text} (hdigits : ∀ c ∈ digits, isAsciiHexdigit c = true)
    (hlen : digits.length % 2 = 0) :
    ∃ bytes, hexDecode digits = some bytes ∧ 2 * bytes.length = digits.length ∧
      bigEndian bytes = hexValue digits := by
  induction digits using hexDecode.induct with
  | case1 => exact ⟨[], rfl, rfl, rfl⟩
  | case2 c => simp at hlen
  | case3 high low rest ih =>
    obtain ⟨hhigh, hrest⟩ := List.forall_mem_cons.mp hdigits
    obtain ⟨hlow, hrest⟩ := List.forall_mem_cons.mp hrest
    obtain ⟨h, hh⟩ := Option.isSome_iff_exists.mp hhigh
    obtain ⟨l, hl⟩ := Option.isSome_iff_exists.mp hlow
    have heven : rest.length % 2 = 0 := by
      rw [List.length_cons, List.length_cons] at hlen
      omega
    obtain ⟨bytes, hbytes, hcount, hvalue⟩ := ih hrest heven
    have hhlt := hexNibble_lt hh
    have hllt := hexNibble_lt hl
    refine ⟨UInt8.ofNat (16 * h + l) :: bytes, ?_, ?_, ?_⟩
    · simp [hexDecode, hh, hl, hbytes]
    · rw [List.length_cons, List.length_cons, List.length_cons]
      omega
    · have hbyte : (UInt8.ofNat (16 * h + l)).toNat = 16 * h + l := by
        rw [UInt8.toNat_ofNat']
        omega
      have hpow : (256 : Nat) ^ bytes.length = 16 ^ rest.length := by
        rw [← hcount, Nat.pow_mul]
      have hpair : hexValue (high :: low :: rest) =
          (16 * h + l) * 16 ^ rest.length + hexValue rest := by
        rw [hexValue, List.foldl_cons, List.foldl_cons, hexValue_from, hh, hl]
        simp
      rw [bigEndian_cons, hbyte, hvalue, hpow, hpair]

theorem isAsciiHexdigit_zero : isAsciiHexdigit '0' = true := by decide

theorem utf8Size_hexdigit {c : Char} (h : isAsciiHexdigit c = true) : c.utf8Size = 1 := by
  have hlt := toNat_lt_of_isAsciiHexdigit h
  rw [Char.utf8Size_eq_one_iff]
  exact UInt32.le_iff_toNat_le.mpr (Nat.le_of_lt_succ hlt)

theorem utf8Len_hexdigits {digits : Text} (h : ∀ c ∈ digits, isAsciiHexdigit c = true) :
    utf8Len digits = digits.length := by
  induction digits with
  | nil => rfl
  | cons c rest ih =>
    obtain ⟨hc, hrest⟩ := List.forall_mem_cons.mp h
    have hone := utf8Size_hexdigit hc
    have htail := ih hrest
    rw [utf8Len, List.map_cons, List.sum_cons, hone, ← utf8Len, htail, List.length_cons]
    omega

/-- `0x` and at most 64 digits are 32 bytes, whatever the digits. -/
theorem parse_hex {digits : Text} (hdigits : ∀ c ∈ digits, isAsciiHexdigit c = true)
    (hlen : digits.length ≤ 64) :
    ∃ bytes, hexDecode (digits.leftpad 64 '0') = some bytes ∧ bytes.length = 32 ∧
      bigEndian bytes = hexValue digits := by
  have hpadded : (digits.leftpad 64 '0').length = 64 := by
    rw [List.length_leftpad]
    omega
  have hall : ∀ c ∈ digits.leftpad 64 '0', isAsciiHexdigit c = true := by
    intro c hc
    rw [List.leftpad, List.mem_append] at hc
    obtain hzero | hdigit := hc
    · rw [List.eq_of_mem_replicate hzero]
      exact isAsciiHexdigit_zero
    · exact hdigits c hdigit
  obtain ⟨bytes, hbytes, hcount, hvalue⟩ := hexDecode_value hall (by rw [hpadded])
  refine ⟨bytes, hbytes, ?_, ?_⟩
  · omega
  · rw [hvalue, hexValue_leftpad]

theorem parseU256_other {value : String} (h : ∀ digits, value.toList ≠ '0' :: 'x' :: digits) :
    parseU256 value =
      if (trim value.toList).isEmpty || !(trim value.toList).all Char.isDigit then
        .error (.invalidEvmProposal "nonce must be a decimal string or 0x-prefixed hex")
      else parseLoop U256.zero (trim value.toList) := by
  unfold parseU256
  split
  next digits heq => exact absurd heq (h digits)
  next => rfl

theorem parseU256_other_number {value : String} (h : ∀ digits, value.toList ≠ '0' :: 'x' :: digits) :
    Evm.parseU256 value =
      if (trim value.toList).isEmpty || !(trim value.toList).all Char.isDigit then
        .error (.invalidEvmProposal "nonce must be a decimal string or 0x-prefixed hex")
      else parseDecimal 0 (trim value.toList) := by
  unfold Evm.parseU256
  split
  next digits heq => exact absurd heq (h digits)
  next => rfl

/-- The bytes a nonce parses to are the number it parses to. -/
theorem parse_value (value : String) :
    (parseU256 value).map U256.value = Evm.parseU256 value := by
  by_cases hhex : ∃ digits, value.toList = '0' :: 'x' :: digits
  · obtain ⟨digits, htext⟩ := hhex
    rw [parseU256, Evm.parseU256, htext]
    simp only []
    by_cases hlong : 64 < utf8Len digits
    · rw [if_pos hlong, if_pos hlong]
      rfl
    · rw [if_neg hlong, if_neg hlong]
      by_cases hall : digits.all isAsciiHexdigit = true
      · rw [if_pos hall, if_pos hall]
        rw [List.all_eq_true] at hall
        rw [utf8Len_hexdigits hall, Nat.not_lt] at hlong
        obtain ⟨bytes, hbytes, hlen, hvalue⟩ := parse_hex hall hlong
        rw [hbytes]
        dsimp only
        rw [dif_pos hlen]
        exact congrArg Except.ok hvalue
      · rw [if_neg hall, if_neg hall]
        rfl
  · have hother := not_exists.mp hhex
    rw [parseU256_other hother, parseU256_other_number hother]
    by_cases hbad : ((trim value.toList).isEmpty || !(trim value.toList).all Char.isDigit) = true
    · rw [if_pos hbad, if_pos hbad]
      rfl
    · rw [if_neg hbad, if_neg hbad]
      simp only [Bool.or_eq_true, Bool.not_eq_true', not_or, Bool.not_eq_false,
        List.all_eq_true] at hbad
      rw [parseLoop_value hbad.2, U256.value_zero]

/-! ## Shift -/

/-- The loop of `shift_right_64` over the indices below `n`, from the highest down. -/
def shiftLoop : Nat → List UInt8 → List UInt8
  | 0, bytes => bytes
  | n + 1, bytes => shiftLoop n (bytes.set n (if 8 ≤ n then bytes.getD (n - 8) 0 else 0))

theorem length_shiftLoop (n : Nat) (bytes : List UInt8) :
    (shiftLoop n bytes).length = bytes.length := by
  induction n generalizing bytes with
  | zero => rfl
  | succ n ih => rw [shiftLoop, ih, List.length_set]

/-- `shift_right_64`. -/
def shiftRight64 (n : U256) : U256 :=
  ⟨shiftLoop 32 n.bytes, (length_shiftLoop 32 n.bytes).trans n.length_eq⟩

/-- In place, and yet each byte read is one not written before. -/
theorem shiftLoop_get {n : Nat} {bytes : List UInt8} (hn : n ≤ bytes.length) (i : Nat) :
    (shiftLoop n bytes).getD i 0 =
      if i < n then (if 8 ≤ i then bytes.getD (i - 8) 0 else 0) else bytes.getD i 0 := by
  induction n generalizing bytes with
  | zero => simp [shiftLoop]
  | succ n ih =>
    have hset : n ≤ (bytes.set n (if 8 ≤ n then bytes.getD (n - 8) 0 else 0)).length := by
      rw [List.length_set]
      omega
    have hother : ∀ j, j ≠ n → ∀ v, (bytes.set n v).getD j 0 = bytes.getD j 0 := by
      intro j hj v
      rw [List.getD_eq_getElem?_getD, List.getD_eq_getElem?_getD, List.getElem?_set_ne (Ne.symm hj)]
    rw [shiftLoop, ih hset]
    by_cases hlt : i < n
    · rw [if_pos hlt, if_pos (Nat.lt_succ_of_lt hlt), hother (i - 8) (by omega)]
    · rw [if_neg hlt]
      by_cases heq : i = n
      · subst heq
        rw [if_pos (Nat.lt_succ_self i), List.getD_eq_getElem?_getD,
          List.getElem?_set_self (by omega), Option.getD_some]
      · have hge : ¬ i < n + 1 := by omega
        rw [if_neg hge, hother i heq]

theorem shiftLoop_eq {bytes : List UInt8} (h : 8 ≤ bytes.length) :
    shiftLoop bytes.length bytes = List.replicate 8 0 ++ bytes.take (bytes.length - 8) := by
  apply List.ext_getElem?
  intro i
  by_cases hi : i < bytes.length
  · have hget := shiftLoop_get (Nat.le_refl bytes.length) i
    have hin : i < (shiftLoop bytes.length bytes).length := by
      rw [length_shiftLoop]
      exact hi
    rw [if_pos hi, List.getD_eq_getElem?_getD, List.getElem?_eq_getElem hin, Option.getD_some] at hget
    rw [List.getElem?_eq_getElem hin, hget, List.getElem?_append, List.length_replicate]
    by_cases hhigh : 8 ≤ i
    · have hshifted : i - 8 < bytes.length := by omega
      rw [if_pos hhigh, if_neg (Nat.not_lt.mpr hhigh), List.getElem?_take_of_lt (by omega),
        List.getD_eq_getElem?_getD, List.getElem?_eq_getElem hshifted, Option.getD_some]
    · rw [if_neg hhigh, if_pos (Nat.lt_of_not_le hhigh), List.getElem?_replicate,
        if_pos (Nat.lt_of_not_le hhigh)]
  · rw [List.getElem?_eq_none, List.getElem?_eq_none]
    · rw [List.length_append, List.length_replicate, List.length_take]
      omega
    · rw [length_shiftLoop]
      omega

theorem bytes_shiftRight64 (n : U256) : (shiftRight64 n).bytes = shiftLoop 32 n.bytes := by
  rw [shiftRight64]

theorem shiftRight64_bytes (n : U256) :
    (shiftRight64 n).bytes = List.replicate 8 0 ++ n.bytes.take 24 := by
  have hlong : 8 ≤ n.bytes.length := by
    rw [n.length_eq]
    decide
  have hloop := shiftLoop_eq hlong
  rw [n.length_eq] at hloop
  rw [bytes_shiftRight64, hloop]

/-- The number above its low 64 bits, and the low 64 bits. -/
theorem value_split (n : U256) :
    n.value = bigEndian (n.bytes.take 24) * 2 ^ 64 + bigEndian (n.bytes.drop 24) := by
  have hlen : (n.bytes.drop 24).length = 8 := by
    rw [List.length_drop, n.length_eq]
  have h := bigEndian_append (n.bytes.take 24) (n.bytes.drop 24)
  rw [List.take_append_drop, hlen] at h
  exact h

theorem low_lt (n : U256) : bigEndian (n.bytes.drop 24) < 2 ^ 64 := by
  have h := bigEndian_lt (n.bytes.drop 24)
  rw [List.length_drop, n.length_eq] at h
  exact h

theorem shiftRight64_value (n : U256) : (shiftRight64 n).value = n.value / 2 ^ 64 := by
  have hsplit := value_split n
  have hlow := low_lt n
  rw [U256.value, shiftRight64_bytes, bigEndian_append, bigEndian_zeros, hsplit]
  omega

/-! ## Division and the decimal -/

/-- The loop of `div_mod_u256_small`, from the first byte to the last. -/
def divModLoop (divisor : UInt8) : UInt16 → List UInt8 → List UInt8 × UInt16
  | remainder, [] => ([], remainder)
  | remainder, byte :: rest =>
    let value := (remainder <<< 8) + byte.toUInt16
    let later := divModLoop divisor (value % divisor.toUInt16) rest
    ((value / divisor.toUInt16).toUInt8 :: later.1, later.2)

theorem length_divModLoop (divisor : UInt8) (remainder : UInt16) (bytes : List UInt8) :
    (divModLoop divisor remainder bytes).1.length = bytes.length := by
  induction bytes generalizing remainder with
  | nil => rfl
  | cons byte rest ih => rw [divModLoop, List.length_cons, ih, List.length_cons]

/-- A remainder below the divisor and the next byte fit in the word, and the
    quotient in a byte. -/
theorem toNat_partial {remainder : UInt16} {divisor : UInt8} (byte : UInt8)
    (h : remainder.toNat < divisor.toNat) :
    ((remainder <<< 8) + byte.toUInt16).toNat = remainder.toNat * 256 + byte.toNat := by
  have hd := divisor.toNat_lt
  have hb := byte.toNat_lt
  have hshift : (remainder <<< 8).toNat = remainder.toNat * 256 := by
    rw [UInt16.toNat_shiftLeft, Nat.shiftLeft_eq]
    have hmod : (8 : UInt16).toNat % 16 = 8 := rfl
    rw [hmod]
    omega
  rw [UInt16.toNat_add, hshift, UInt8.toNat_toUInt16]
  omega

theorem divModLoop_value {divisor : UInt8} {remainder : UInt16}
    (h : remainder.toNat < divisor.toNat) (bytes : List UInt8) :
    divisor.toNat * bigEndian (divModLoop divisor remainder bytes).1 +
        (divModLoop divisor remainder bytes).2.toNat =
      remainder.toNat * 256 ^ bytes.length + bigEndian bytes ∧
    (divModLoop divisor remainder bytes).2.toNat < divisor.toNat := by
  induction bytes generalizing remainder with
  | nil => exact ⟨by simp [divModLoop, bigEndian_nil], h⟩
  | cons byte rest ih =>
    have hvalue := toNat_partial byte h
    have hbyte := byte.toNat_lt
    generalize hv : (remainder <<< 8) + byte.toUInt16 = value at hvalue
    have hpos : 0 < divisor.toNat := by omega
    have hmod : (value % divisor.toUInt16).toNat = value.toNat % divisor.toNat := by
      rw [UInt16.toNat_mod, UInt8.toNat_toUInt16]
    have hquotient : ((value / divisor.toUInt16).toUInt8).toNat = value.toNat / divisor.toNat := by
      have hlt : value.toNat / divisor.toNat < 256 := by
        rw [Nat.div_lt_iff_lt_mul hpos, hvalue]
        omega
      rw [UInt16.toNat_toUInt8, UInt16.toNat_div, UInt8.toNat_toUInt16]
      exact Nat.mod_eq_of_lt hlt
    have hnext : (value % divisor.toUInt16).toNat < divisor.toNat := by
      rw [hmod]
      exact Nat.mod_lt _ hpos
    obtain ⟨hrest, hlast⟩ := ih hnext
    rw [divModLoop]
    simp only [hv]
    refine ⟨?_, hlast⟩
    rw [hmod] at hrest
    have hsplit : divisor.toNat * (value.toNat / divisor.toNat) + value.toNat % divisor.toNat =
        value.toNat := Nat.div_add_mod _ _
    rw [bigEndian_cons, bigEndian_cons, length_divModLoop, List.length_cons, hquotient, Nat.pow_succ]
    generalize divModLoop divisor (value % divisor.toUInt16) rest = later at hrest ⊢
    calc divisor.toNat * (value.toNat / divisor.toNat * 256 ^ rest.length + bigEndian later.1) +
          later.2.toNat
        = divisor.toNat * (value.toNat / divisor.toNat) * 256 ^ rest.length +
            (divisor.toNat * bigEndian later.1 + later.2.toNat) := by ring
      _ = (divisor.toNat * (value.toNat / divisor.toNat) + value.toNat % divisor.toNat) *
            256 ^ rest.length + bigEndian rest := by
        rw [hrest]
        ring
      _ = remainder.toNat * (256 ^ rest.length * 256) +
            (byte.toNat * 256 ^ rest.length + bigEndian rest) := by
        rw [hsplit, hvalue]
        ring

theorem divModLoop_ten (bytes : List UInt8) :
    bigEndian (divModLoop 10 0 bytes).1 = bigEndian bytes / 10 ∧
      (divModLoop 10 0 bytes).2.toNat = bigEndian bytes % 10 := by
  have hzero : (0 : UInt16).toNat < (10 : UInt8).toNat := by decide
  obtain ⟨hvalue, hlt⟩ := divModLoop_value hzero bytes
  have hten : (10 : UInt8).toNat = 10 := rfl
  rw [hten, UInt16.toNat_zero] at hvalue
  rw [hten] at hlt
  omega

theorem any_ne_zero {bytes : List UInt8} :
    bytes.any (· != 0) = true ↔ 0 < bigEndian bytes := by
  rw [Nat.pos_iff_ne_zero, Ne, bigEndian_eq_zero_iff, List.any_eq_true]
  simp

/-- The `while` of `u256_to_decimal`: the last digit first. -/
def decimalLoop (work : List UInt8) (digits : List Char) : List Char :=
  if work.any (· != 0) then
    let step := divModLoop 10 0 work
    decimalLoop step.1 (digits ++ [Char.ofUInt8 (48 + step.2.toUInt8)])
  else digits
termination_by bigEndian work
decreasing_by
  rename_i hany
  have hpos := any_ne_zero.mp hany
  rw [(divModLoop_ten work).1]
  omega

/-- `u256_to_decimal`. -/
def u256ToDecimal (n : U256) : String :=
  if n.bytes.all (· == 0) then "0"
  else String.ofList (decimalLoop n.bytes []).reverse

theorem digit_char {r : UInt16} {k : Nat} (hr : r.toNat = k) (hk : k < 10) :
    Char.ofUInt8 (48 + r.toUInt8) = k.digitChar := by
  have hr' : r = UInt16.ofNat k := by
    rw [← UInt16.toNat_inj, hr, UInt16.toNat_ofNat']
    omega
  subst hr'
  have hall : ∀ j : Fin 10, Char.ofUInt8 (48 + (UInt16.ofNat j.val).toUInt8) = j.val.digitChar := by
    decide
  exact hall ⟨k, hk⟩

theorem decimalLoop_eq (work : List UInt8) (digits : List Char) (hpos : 0 < bigEndian work) :
    decimalLoop work digits = digits ++ (Nat.toDigits 10 (bigEndian work)).reverse := by
  generalize hn : bigEndian work = n at hpos
  induction n using Nat.strong_induction_on generalizing work digits with
  | _ n ih =>
    obtain ⟨hquotient, hremainder⟩ := divModLoop_ten work
    have hdigit := digit_char hremainder (Nat.mod_lt _ (by decide))
    rw [hn] at hquotient hdigit
    have hany : work.any (· != 0) = true := any_ne_zero.mpr (by omega)
    rw [decimalLoop, if_pos hany]
    simp only [hdigit]
    by_cases hsmall : n < 10
    · -- the quotient is zero: the loop ends
      have hstop : ¬ (divModLoop 10 0 work).1.any (· != 0) = true := by
        rw [any_ne_zero]
        omega
      rw [decimalLoop, if_neg hstop, Nat.toDigits_of_lt_base hsmall, Nat.mod_eq_of_lt hsmall]
      rfl
    · have hless : n / 10 < n := by omega
      have hmore : 0 < n / 10 := by omega
      rw [ih (n / 10) hless _ _ hquotient hmore,
        Nat.toDigits_of_base_le (by decide) (Nat.le_of_not_lt hsmall), List.reverse_append,
        List.append_assoc]
      rfl

/-- The numeral of the number, without leading zeros. -/
theorem u256ToDecimal_eq (n : U256) : u256ToDecimal n = toString n.value := by
  rw [Nat.toString_eq_repr, u256ToDecimal]
  by_cases hzero : n.value = 0
  · have hall : n.bytes.all (· == 0) = true := by
      rw [List.all_eq_true]
      intro b hb
      exact beq_iff_eq.mpr (bigEndian_eq_zero_iff.mp hzero b hb)
    rw [if_pos hall, hzero]
    rfl
  · have hall : ¬ n.bytes.all (· == 0) = true := by
      intro hall
      refine hzero (bigEndian_eq_zero_iff.mpr ?_)
      intro b hb
      exact beq_iff_eq.mp (List.all_eq_true.mp hall b hb)
    rw [if_neg hall, decimalLoop_eq n.bytes [] (Nat.pos_of_ne_zero hzero), List.nil_append,
      List.reverse_reverse, Nat.repr_eq_ofList_toDigits]
    rfl

/-! ## Nonces -/

/-- `NormalizedNonce`. -/
structure NormalizedNonce where
  decimal : String
  nonceKey : String
  bytes : U256
  deriving DecidableEq, Repr

/-- `normalize_nonce`. -/
def normalizeNonce (value : String) : Except EvmError NormalizedNonce := do
  let bytes ← parseU256 value
  return ⟨u256ToDecimal bytes, u256ToDecimal (shiftRight64 bytes), bytes⟩

/-- `compare_u256_decimal`. -/
def compareU256Decimal (left right : String) : Except EvmError Ordering := do
  let left ← parseU256 left
  let right ← parseU256 right
  return lexCompare left.bytes right.bytes

/-- `NormalizedNonce::low_u64`. -/
def NormalizedNonce.lowU64 (nonce : NormalizedNonce) : UInt64 :=
  UInt64.ofNat (bigEndian ((nonce.bytes.bytes.drop 24).take 8))

theorem NormalizedNonce.lowU64_eq (nonce : NormalizedNonce) :
    nonce.lowU64.toNat = nonce.bytes.value % 2 ^ 64 := by
  have hlow := low_lt nonce.bytes
  have hsplit := value_split nonce.bytes
  have hall : (nonce.bytes.bytes.drop 24).length ≤ 8 := by
    rw [List.length_drop, nonce.bytes.length_eq]
  rw [NormalizedNonce.lowU64, List.take_of_length_le hall, UInt64.toNat_ofNat', hsplit]
  omega

theorem normalizeNonce_ok {value : String} {nonce : NormalizedNonce} :
    normalizeNonce value = .ok nonce ↔ ∃ bytes, parseU256 value = .ok bytes ∧
      nonce = ⟨toString bytes.value, toString (bytes.value / 2 ^ 64), bytes⟩ := by
  rw [normalizeNonce]
  cases hparse : parseU256 value with
  | error e =>
    constructor
    · intro h
      cases h
    · rintro ⟨bytes, hbytes, _⟩
      cases hbytes
  | ok bytes =>
    have hnonce : (⟨u256ToDecimal bytes, u256ToDecimal (shiftRight64 bytes), bytes⟩ : NormalizedNonce)
        = ⟨toString bytes.value, toString (bytes.value / 2 ^ 64), bytes⟩ := by
      rw [u256ToDecimal_eq, u256ToDecimal_eq, shiftRight64_value]
    rw [bind_parsed, hnonce]
    constructor
    · intro h
      cases h
      exact ⟨bytes, rfl, rfl⟩
    · rintro ⟨_, hbytes, rfl⟩
      cases hbytes
      rfl

/-- What the services read of a nonce is what the bytes are. -/
theorem normalizeNonce_value (value : String) :
    (normalizeNonce value).map (fun nonce => (⟨nonce.decimal, nonce.nonceKey, nonce.bytes.value⟩ :
      Evm.NormalizedNonce)) = Evm.normalizeNonce value := by
  have hparse := parse_value value
  rw [normalizeNonce, Evm.normalizeNonce, ← hparse]
  cases parseU256 value with
  | error e => rfl
  | ok bytes =>
    rw [bind_parsed, u256ToDecimal_eq, u256ToDecimal_eq, shiftRight64_value]
    rfl

theorem compareU256Decimal_ok {left right : String} {m n : U256} (hleft : parseU256 left = .ok m)
    (hright : parseU256 right = .ok n) :
    compareU256Decimal left right = .ok (compare m.value n.value) := by
  rw [compareU256Decimal, hleft, bind_parsed, hright, bind_parsed,
    lexCompare_eq (m.length_eq.trans n.length_eq.symm)]
  rfl

theorem lessU256Decimal_eq (left right : String) :
    (compareU256Decimal left right).map (· == .lt) = Evm.lessU256Decimal left right := by
  have hleft := parse_value left
  have hright := parse_value right
  rw [Evm.lessU256Decimal, ← hleft, ← hright]
  cases hm : parseU256 left with
  | error e =>
    rw [compareU256Decimal, hm]
    rfl
  | ok m =>
    cases hn : parseU256 right with
    | error e =>
      rw [compareU256Decimal, hm, bind_parsed, hn]
      rfl
    | ok n =>
      rw [compareU256Decimal_ok hm hn]
      refine congrArg Except.ok ?_
      by_cases hlt : m.value < n.value
      · rw [compare_lt_iff_lt.mpr hlt, decide_eq_true hlt]
        rfl
      · have hne : compare m.value n.value ≠ .lt := fun h => hlt (compare_lt_iff_lt.mp h)
        rw [decide_eq_false hlt]
        exact beq_eq_false_iff_ne.mpr hne

/-! ## The integers of the strings -/

/-- The integer a string is a numeral of: decimal digits, any number of them, or `0x`
    and at most 64 hexadecimal ones. -/
inductive Numeral : String → Nat → Prop
  | decimal {digits : Text} (some : digits ≠ []) (all : ∀ c ∈ digits, c.isDigit = true) :
    Numeral (String.ofList digits) (Nat.ofDigitChars 10 digits 0)
  | hex {digits : Text} (some : digits ≠ []) (short : digits.length ≤ 64)
    (all : ∀ c ∈ digits, isAsciiHexdigit c = true) :
    Numeral (String.ofList ('0' :: 'x' :: digits)) (hexValue digits)

theorem isWhitespace_digit {c : Char} (h : c.isDigit = true) : isWhitespace c = false := by
  have hrange : 48 ≤ c.toNat ∧ c.toNat ≤ 57 := by
    simp only [Char.isDigit, Bool.and_eq_true, decide_eq_true_eq] at h
    exact h
  simp only [isWhitespace, List.mem_cons, List.not_mem_nil, Bool.or_eq_false_iff,
    decide_eq_false_iff_not, Bool.and_eq_false_iff, not_or, not_false_eq_true, and_true]
  omega

/-- A step below `2 ^ 256` after one above it is none: the accumulator only grows. -/
theorem parseDecimal_eq (n : Nat) (digits : Text) (hn : n < 2 ^ 256) :
    parseDecimal n digits =
      if Nat.ofDigitChars 10 digits n < 2 ^ 256 then .ok (Nat.ofDigitChars 10 digits n)
      else .error exceeds := by
  induction digits generalizing n with
  | nil =>
    rw [Nat.ofDigitChars_nil, if_pos hn]
    rfl
  | cons digit rest ih =>
    rw [parseDecimal, Nat.ofDigitChars_cons]
    have hzero : '0'.toNat = 48 := rfl
    rw [hzero]
    split
    next hfits => exact ih _ hfits
    next hover =>
      have hgrows : 10 * n + (digit.toNat - 48) ≤
          Nat.ofDigitChars 10 rest (10 * n + (digit.toNat - 48)) := by
        rw [Nat.ofDigitChars_eq_ofDigitChars_zero]
        exact Nat.le_add_right_of_le (Nat.le_mul_of_pos_left _ (Nat.pow_pos (by decide)))
      rw [if_neg (by omega)]
      rfl

theorem parseU256_decimal {digits : Text} (hne : digits ≠ [])
    (hdigits : ∀ c ∈ digits, c.isDigit = true) :
    Evm.parseU256 (String.ofList digits) =
      if Nat.ofDigitChars 10 digits 0 < 2 ^ 256 then .ok (Nat.ofDigitChars 10 digits 0)
      else .error exceeds := by
  have htrim : trim digits = digits := trim_eq_self fun c hc => isWhitespace_digit (hdigits c hc)
  rw [Evm.parseU256, String.toList_ofList]
  split
  next rest =>
    have hx : 'x'.isDigit = true := hdigits 'x' (by simp)
    cases hx
  next =>
    have hgood : ¬ ((trim digits).isEmpty || !(trim digits).all Char.isDigit) = true := by
      rw [htrim]
      simpa [hne] using hdigits
    simp only []
    rw [if_neg hgood, htrim, parseDecimal_eq 0 digits (by decide)]

theorem parseU256_hex {digits : Text} (hlen : digits.length ≤ 64)
    (hdigits : ∀ c ∈ digits, isAsciiHexdigit c = true) :
    Evm.parseU256 (String.ofList ('0' :: 'x' :: digits)) = .ok (hexValue digits) := by
  have hshort : ¬ 64 < utf8Len digits := by
    rw [utf8Len_hexdigits hdigits]
    omega
  rw [Evm.parseU256, String.toList_ofList]
  simp only []
  rw [if_neg hshort, if_pos (List.all_eq_true.mpr hdigits)]
  rfl

theorem parsed_iff {text : String} {n : Nat} :
    Evm.parseU256 text = .ok n ↔ ∃ bytes, parseU256 text = .ok bytes ∧ bytes.value = n := by
  rw [← parse_value]
  cases parseU256 text with
  | error e => simp [Except.map]
  | ok bytes => simp [Except.map]

/-- The bytes of an accepted numeral are its integer. -/
theorem Numeral.value {text : String} {n : Nat} {bytes : U256} (h : Numeral text n)
    (hparse : parseU256 text = .ok bytes) : bytes.value = n := by
  have hok : Evm.parseU256 text = .ok bytes.value := parsed_iff.mpr ⟨bytes, hparse, rfl⟩
  cases h with
  | decimal hne hdigits =>
    rw [parseU256_decimal hne hdigits] at hok
    split at hok
    next => exact (Except.ok.inj hok).symm
    next => cases hok
  | hex hne hlen hdigits =>
    rw [parseU256_hex hlen hdigits] at hok
    exact (Except.ok.inj hok).symm

/-- What is printed is read back. -/
theorem parse_toString (bytes : U256) : parseU256 (toString bytes.value) = .ok bytes := by
  have hlt := bytes.value_lt
  have hdigits : ∀ c ∈ Nat.toDigits 10 bytes.value, c.isDigit = true := by
    intro c hc
    exact Nat.isDigit_of_mem_toDigits (by decide) (by decide) hc
  have hok : Evm.parseU256 (toString bytes.value) = .ok bytes.value := by
    rw [Nat.toString_eq_repr, Nat.repr_eq_ofList_toDigits,
      parseU256_decimal Nat.toDigits_ne_nil hdigits, Nat.ofDigitChars_ten_toDigits, if_pos hlt]
  obtain ⟨parsed, hparsed, hvalue⟩ := parsed_iff.mp hok
  rw [hparsed, U256.ext_value hvalue]

theorem accepted_iff {text : String} :
    (∃ nonce, normalizeNonce text = .ok nonce) ↔ ∃ n, Evm.parseU256 text = .ok n := by
  constructor
  · rintro ⟨nonce, h⟩
    obtain ⟨bytes, hbytes, _⟩ := normalizeNonce_ok.mp h
    exact ⟨bytes.value, parsed_iff.mpr ⟨bytes, hbytes, rfl⟩⟩
  · rintro ⟨n, h⟩
    obtain ⟨bytes, hbytes, _⟩ := parsed_iff.mp h
    exact ⟨_, normalizeNonce_ok.mpr ⟨bytes, hbytes, rfl⟩⟩

/-- Decimal digits are accepted exactly below `2 ^ 256` and `0x` strings always; what
    is accepted is the integer, printed as its numeral, keyed by its upper bits and
    ordered as the integers are. -/
theorem nonce_exact :
    (∀ digits : Text, digits ≠ [] → (∀ c ∈ digits, c.isDigit = true) →
      ((∃ nonce, normalizeNonce (String.ofList digits) = .ok nonce) ↔
        Nat.ofDigitChars 10 digits 0 < 2 ^ 256)) ∧
    (∀ digits : Text, digits ≠ [] → digits.length ≤ 64 →
      (∀ c ∈ digits, isAsciiHexdigit c = true) →
      ∃ nonce, normalizeNonce (String.ofList ('0' :: 'x' :: digits)) = .ok nonce) ∧
    (∀ text n nonce, Numeral text n → normalizeNonce text = .ok nonce →
      nonce.bytes.value = n ∧ nonce.decimal = toString n ∧
      parseU256 nonce.decimal = .ok nonce.bytes ∧
      nonce.nonceKey = toString (n / 2 ^ 64) ∧ nonce.lowU64.toNat = n % 2 ^ 64) ∧
    (∀ left right m n x y, Numeral left m → Numeral right n →
      normalizeNonce left = .ok x → normalizeNonce right = .ok y →
      compareU256Decimal left right = .ok (compare m n)) := by
  refine ⟨?_, ?_, ?_, ?_⟩
  · intro digits hne hdigits
    rw [accepted_iff, parseU256_decimal hne hdigits]
    split
    next hfits => exact ⟨fun _ => hfits, fun _ => ⟨_, rfl⟩⟩
    next hover =>
      refine ⟨?_, fun hfits => absurd hfits hover⟩
      rintro ⟨n, hn⟩
      cases hn
  · intro digits _ hlen hdigits
    exact accepted_iff.mpr ⟨_, parseU256_hex hlen hdigits⟩
  · intro text n nonce htext hnonce
    obtain ⟨bytes, hparse, rfl⟩ := normalizeNonce_ok.mp hnonce
    have hvalue := htext.value hparse
    refine ⟨hvalue, ?_, parse_toString bytes, ?_, ?_⟩
    · rw [hvalue]
    · rw [hvalue]
    · rw [NormalizedNonce.lowU64_eq, hvalue]
  · intro left right m n x y hleft hright hx hy
    obtain ⟨bytes, hparse, -⟩ := normalizeNonce_ok.mp hx
    obtain ⟨bytes', hparse', -⟩ := normalizeNonce_ok.mp hy
    rw [compareU256Decimal_ok hparse hparse', hleft.value hparse, hright.value hparse']

/-- Leading zeros, and the same integer in either notation. -/
theorem nonce_exact_at_258 :
    (∃ nonce, normalizeNonce (String.ofList ['0', '0', '2', '5', '8']) = .ok nonce) ∧
    (∃ nonce, normalizeNonce (String.ofList ['0', 'x', '1', '0', '2']) = .ok nonce) ∧
    compareU256Decimal (String.ofList ['0', '0', '2', '5', '8'])
      (String.ofList ['0', 'x', '1', '0', '2']) = .ok .eq := by
  have hdecimal : ∀ c ∈ ['0', '0', '2', '5', '8'], c.isDigit = true :=
    List.all_eq_true.mp (by decide)
  have hhex : ∀ c ∈ ['1', '0', '2'], isAsciiHexdigit c = true := List.all_eq_true.mp (by decide)
  have hleft := (nonce_exact.1 _ (by decide) hdecimal).mpr (by decide)
  have hright := nonce_exact.2.1 _ (by decide) (by decide) hhex
  obtain ⟨x, hx⟩ := hleft
  obtain ⟨y, hy⟩ := hright
  have hm : Numeral (String.ofList ['0', '0', '2', '5', '8']) 258 := .decimal (by decide) hdecimal
  have hn : Numeral (String.ofList ['0', 'x', '1', '0', '2']) 258 :=
    .hex (by decide) (by decide) hhex
  exact ⟨⟨x, hx⟩, ⟨y, hy⟩, nonce_exact.2.2.2 _ _ _ _ x y hm hn hx hy⟩

end Guardian.Evm.Nonce
