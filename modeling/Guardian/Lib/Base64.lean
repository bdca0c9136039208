import Mathlib.Data.List.Basic

/- Base64 with the URL alphabet and no padding.

   Three bytes are four digits of six bits; one or two bytes at the end are two or three
   digits whose unused bits are zero. A text is accepted only in that form, so decoding
   and encoding undo each other in both directions (`decode_encode`, `encode_of_decode`). -/
namespace Base64

/-- The digit of a six-bit value. -/
def letter (v : Nat) : Char :=
  if v < 26 then Char.ofNat (65 + v)
  else if v < 52 then Char.ofNat (97 + (v - 26))
  else if v < 62 then Char.ofNat (48 + (v - 52))
  else if v = 62 then '-'
  else '_'

/-- The six-bit value of a digit. -/
def value (c : Char) : Option Nat :=
  if 65 ≤ c.toNat ∧ c.toNat ≤ 90 then some (c.toNat - 65)
  else if 97 ≤ c.toNat ∧ c.toNat ≤ 122 then some (c.toNat - 97 + 26)
  else if 48 ≤ c.toNat ∧ c.toNat ≤ 57 then some (c.toNat - 48 + 52)
  else if c = '-' then some 62
  else if c = '_' then some 63
  else none

theorem value_letter : ∀ v < 64, value (letter v) = some v := by decide

theorem letter_of_value {c : Char} {v : Nat} (h : value c = some v) : v < 64 ∧ letter v = c := by
  have hchar : ∀ k, k = c.toNat → Char.ofNat k = c := by
    rintro k rfl
    exact Char.ofNat_toNat c
  unfold value at h
  unfold letter
  split at h
  · obtain rfl := Option.some.inj h
    refine ⟨by omega, ?_⟩
    rw [if_pos (by omega)]
    exact hchar _ (by omega)
  split at h
  · obtain rfl := Option.some.inj h
    refine ⟨by omega, ?_⟩
    rw [if_neg (by omega), if_pos (by omega)]
    exact hchar _ (by omega)
  split at h
  · obtain rfl := Option.some.inj h
    refine ⟨by omega, ?_⟩
    rw [if_neg (by omega), if_neg (by omega), if_pos (by omega)]
    exact hchar _ (by omega)
  split at h
  · next hc =>
    obtain rfl := Option.some.inj h
    exact ⟨by omega, hc.symm⟩
  split at h
  · next hc =>
    obtain rfl := Option.some.inj h
    exact ⟨by omega, hc.symm⟩
  · cases h

/-! ## Digits -/

/-- The six-bit values of a run of bytes. -/
def digits : List UInt8 → List Nat
  | a :: b :: c :: rest =>
    a.toNat / 4 :: (a.toNat % 4 * 16 + b.toNat / 16) :: (b.toNat % 16 * 4 + c.toNat / 64) ::
      c.toNat % 64 :: digits rest
  | [a, b] => [a.toNat / 4, a.toNat % 4 * 16 + b.toNat / 16, b.toNat % 16 * 4]
  | [a] => [a.toNat / 4, a.toNat % 4 * 16]
  | [] => []

/-- The bytes of a run of six-bit values; `none` for a length no run of bytes has, or an
    unused bit that is set. -/
def bytes : List Nat → Option (List UInt8)
  | w :: x :: y :: z :: rest =>
    (bytes rest).map fun tail =>
      UInt8.ofNat (w * 4 + x / 16) :: UInt8.ofNat (x % 16 * 16 + y / 4) ::
        UInt8.ofNat (y % 4 * 64 + z) :: tail
  | [w, x, y] =>
    if y % 4 = 0 then some [UInt8.ofNat (w * 4 + x / 16), UInt8.ofNat (x % 16 * 16 + y / 4)]
    else none
  | [w, x] => if x % 16 = 0 then some [UInt8.ofNat (w * 4 + x / 16)] else none
  | [_] => none
  | [] => some []

theorem toNat_lt (b : UInt8) : b.toNat < 256 := b.toBitVec.isLt

theorem ofNat_eq {n : Nat} {b : UInt8} (h : n = b.toNat) : UInt8.ofNat n = b := by
  rw [h]
  exact UInt8.ofNat_toNat

theorem digits_lt (bs : List UInt8) : ∀ v ∈ digits bs, v < 64 := by
  fun_induction digits bs with
  | case1 a b c rest ih =>
    have ha := toNat_lt a
    have hb := toNat_lt b
    have hc := toNat_lt c
    simp only [List.forall_mem_cons]
    exact ⟨by omega, by omega, by omega, by omega, ih⟩
  | case2 a b =>
    have ha := toNat_lt a
    have hb := toNat_lt b
    simp only [List.forall_mem_cons]
    exact ⟨by omega, by omega, by omega, by simp⟩
  | case3 a =>
    have ha := toNat_lt a
    simp only [List.forall_mem_cons]
    exact ⟨by omega, by omega, by simp⟩
  | case4 => simp

theorem bytes_digits (bs : List UInt8) : bytes (digits bs) = some bs := by
  fun_induction digits bs with
  | case1 a b c rest ih =>
    have ha := toNat_lt a
    have hb := toNat_lt b
    have hc := toNat_lt c
    rw [bytes, ih, Option.map_some, ofNat_eq (b := a) (by omega), ofNat_eq (b := b) (by omega),
      ofNat_eq (b := c) (by omega)]
  | case2 a b =>
    have ha := toNat_lt a
    have hb := toNat_lt b
    rw [bytes, if_pos (by omega), ofNat_eq (b := a) (by omega), ofNat_eq (b := b) (by omega)]
  | case3 a =>
    have ha := toNat_lt a
    rw [bytes, if_pos (by omega), ofNat_eq (b := a) (by omega)]
  | case4 => rfl

theorem toNat_ofNat {n : Nat} (h : n < 256) : (UInt8.ofNat n).toNat = n :=
  UInt8.toNat_ofNat_of_lt' h

/-- Only the digits of the bytes read are read so. -/
theorem digits_of_bytes {vs : List Nat} {bs : List UInt8} (hvs : ∀ v ∈ vs, v < 64)
    (h : bytes vs = some bs) : digits bs = vs := by
  fun_induction bytes vs generalizing bs with
  | case1 w x y z rest ih =>
    simp only [List.forall_mem_cons] at hvs
    obtain ⟨hw, hx, hy, hz, hrest⟩ := hvs
    obtain ⟨tail, htail, rfl⟩ := Option.map_eq_some_iff.mp h
    rw [digits, ih hrest htail, toNat_ofNat (by omega), toNat_ofNat (by omega),
      toNat_ofNat (by omega)]
    congr 1
    · omega
    congr 1
    · omega
    congr 1
    · omega
    congr 1
    omega
  | case2 w x y hy =>
    simp only [List.forall_mem_cons] at hvs
    obtain ⟨hw, hx, hy', -⟩ := hvs
    obtain rfl := Option.some.inj h
    rw [digits, toNat_ofNat (by omega), toNat_ofNat (by omega)]
    congr 1
    · omega
    congr 1
    · omega
    congr 1
    omega
  | case3 => cases h
  | case4 w x hx =>
    simp only [List.forall_mem_cons] at hvs
    obtain ⟨hw, hx', -⟩ := hvs
    obtain rfl := Option.some.inj h
    rw [digits, toNat_ofNat (by omega)]
    congr 1
    · omega
    congr 1
    omega
  | case5 => cases h
  | case6 => cases h
  | case7 =>
    obtain rfl := Option.some.inj h
    rfl

/-! ## Texts -/

def encode (bs : List UInt8) : String := String.ofList ((digits bs).map letter)

def decode (text : String) : Option (List UInt8) := (text.toList.mapM value).bind bytes

theorem mapM_value {vs : List Nat} (h : ∀ v ∈ vs, v < 64) :
    (vs.map letter).mapM value = some vs := by
  induction vs with
  | nil => rfl
  | cons v vs ih =>
    simp only [List.forall_mem_cons] at h
    rw [List.map_cons, List.mapM_cons, value_letter v h.1, ih h.2]
    rfl

theorem map_letter {cs : List Char} {vs : List Nat} (h : cs.mapM value = some vs) :
    (∀ v ∈ vs, v < 64) ∧ vs.map letter = cs := by
  induction cs generalizing vs with
  | nil =>
    obtain rfl := Option.some.inj h
    exact ⟨by simp, rfl⟩
  | cons c cs ih =>
    rw [List.mapM_cons] at h
    obtain ⟨v, hv, h⟩ := Option.bind_eq_some_iff.mp h
    obtain ⟨rest, hrest, h⟩ := Option.bind_eq_some_iff.mp h
    obtain rfl := Option.some.inj h
    obtain ⟨hlt, hletter⟩ := letter_of_value hv
    obtain ⟨hall, hmap⟩ := ih hrest
    refine ⟨?_, ?_⟩
    · simp only [List.forall_mem_cons]
      exact ⟨hlt, hall⟩
    · rw [List.map_cons, hletter, hmap]

theorem decode_encode (bs : List UInt8) : decode (encode bs) = some bs := by
  unfold decode encode
  rw [String.toList_ofList, mapM_value (digits_lt bs)]
  exact bytes_digits bs

/-- A text that decodes is the encoding of its bytes. -/
theorem encode_of_decode {text : String} {bs : List UInt8} (h : decode text = some bs) :
    encode bs = text := by
  obtain ⟨vs, hvs, hbytes⟩ := Option.bind_eq_some_iff.mp h
  obtain ⟨hlt, hmap⟩ := map_letter hvs
  unfold encode
  rw [digits_of_bytes hlt hbytes, hmap, String.ofList_toList]

end Base64
