import Guardian.Lib.Bytes

/- The fixed-width binary format: little-endian integers, a byte before an optional
   value, the length in eight bytes before a text.

   A codec reads off the front of a run of bytes what it wrote there, whatever follows
   (`decode_encode`). Codecs compose field by field. -/
namespace Binary

open Bytes

structure Codec (α : Type) where
  encode : α → List UInt8
  decode : List UInt8 → Option (α × List UInt8)
  decode_encode : ∀ a rest, decode (encode a ++ rest) = some (a, rest)

/-! ## Integers -/

/-- The low `k` bytes of a number, the lowest first. -/
def fixed : Nat → Nat → List UInt8
  | 0, _ => []
  | k + 1, n => UInt8.ofNat (n % 256) :: fixed k (n / 256)

@[simp] theorem length_fixed (k n : Nat) : (fixed k n).length = k := by
  induction k generalizing n with
  | zero => rfl
  | succ k ih => rw [fixed, List.length_cons, ih]

theorem littleEndian_fixed {k n : Nat} (h : n < 256 ^ k) : littleEndian (fixed k n) = n := by
  induction k generalizing n with
  | zero =>
    rw [Nat.pow_zero] at h
    rw [fixed, littleEndian]
    omega
  | succ k ih =>
    have hbyte : (UInt8.ofNat (n % 256)).toNat = n % 256 := by
      refine UInt8.toNat_ofNat_of_lt' ?_
      show n % 256 < 256
      omega
    have hrest : n / 256 < 256 ^ k := by
      rw [Nat.pow_succ] at h
      exact Nat.div_lt_of_lt_mul (by rwa [Nat.mul_comm])
    rw [fixed, littleEndian, hbyte, ih hrest]
    omega

/-- Reads `k` bytes as a number. -/
def readFixed (k : Nat) (bs : List UInt8) : Option (Nat × List UInt8) :=
  if k ≤ bs.length then some (littleEndian (bs.take k), bs.drop k) else none

theorem readFixed_append {k n : Nat} (h : n < 256 ^ k) (rest : List UInt8) :
    readFixed k (fixed k n ++ rest) = some (n, rest) := by
  have hlen : k ≤ (fixed k n ++ rest).length := by
    rw [List.length_append, length_fixed]
    omega
  unfold readFixed
  rw [if_pos hlen, List.take_left' (length_fixed k n), List.drop_left' (length_fixed k n),
    littleEndian_fixed h]

/-- A word of `k` bytes. -/
def word (k : Nat) : Codec (BitVec (8 * k)) where
  encode b := fixed k b.toNat
  decode bs := (readFixed k bs).map fun read => (BitVec.ofNat (8 * k) read.1, read.2)
  decode_encode := by
    intro b rest
    have hlt : b.toNat < 256 ^ k := by
      have hb := b.isLt
      rwa [Nat.pow_mul] at hb
    rw [readFixed_append hlt, Option.map_some, BitVec.ofNat_toNat, BitVec.setWidth_eq]

/-! ## Texts -/

/-- A text whose length in bytes is a `u64`. -/
structure Text where
  val : String
  fits : val.toByteArray.size < 2 ^ 64

theorem Text.ext {s t : Text} (h : s.val = t.val) : s = t := by
  cases s
  cases t
  cases h
  rfl

instance : DecidableEq Text := fun s t =>
  decidable_of_iff (s.val = t.val) ⟨Text.ext, fun h => h ▸ rfl⟩

/-- A text of the bytes, where they are one. -/
def readUtf8 (bs : List UInt8) : Option Text :=
  match String.fromUTF8? ⟨bs.toArray⟩ with
  | some s => if h : s.toByteArray.size < 2 ^ 64 then some ⟨s, h⟩ else none
  | none => none

def textBytes (s : Text) : List UInt8 := s.val.toByteArray.data.toList

theorem readUtf8_textBytes (s : Text) : readUtf8 (textBytes s) = some s := by
  have hread : String.fromUTF8? ⟨(textBytes s).toArray⟩ = some s.val := by
    unfold String.fromUTF8? textBytes
    rw [dif_pos (by simpa using s.val.isValidUTF8)]
    simp [String.fromUTF8]
  unfold readUtf8
  rw [hread]
  exact dif_pos s.fits

/-- The length in eight bytes, then the text. -/
def text : Codec Text where
  encode s := fixed 8 (textBytes s).length ++ textBytes s
  decode bs :=
    (readFixed 8 bs).bind fun (n, bs) =>
      if n ≤ bs.length then (readUtf8 (bs.take n)).map fun s => (s, bs.drop n) else none
  decode_encode := by
    intro s rest
    have hlt : (textBytes s).length < 256 ^ 8 := s.fits
    have hlen : (textBytes s).length ≤ (textBytes s ++ rest).length := by
      rw [List.length_append]
      omega
    rw [List.append_assoc, readFixed_append hlt]
    simp only [Option.bind_some]
    rw [if_pos hlen, List.take_left, List.drop_left, readUtf8_textBytes, Option.map_some]

/-! ## Composition -/

/-- A byte, 0 or 1, before the value. -/
def option {α : Type} (c : Codec α) : Codec (Option α) where
  encode
    | none => [0]
    | some a => 1 :: c.encode a
  decode
    | [] => none
    | b :: bs =>
      if b = 0 then some (none, bs)
      else if b = 1 then (c.decode bs).map fun read => (some read.1, read.2)
      else none
  decode_encode := by
    intro a rest
    cases a with
    | none => rfl
    | some a =>
      show (c.decode (c.encode a ++ rest)).map (fun read => (some read.1, read.2)) = _
      rw [c.decode_encode, Option.map_some]

/-- One after the other. -/
def pair {α β : Type} (c : Codec α) (d : Codec β) : Codec (α × β) where
  encode p := c.encode p.1 ++ d.encode p.2
  decode bs := (c.decode bs).bind fun (a, bs) => (d.decode bs).map fun read => ((a, read.1), read.2)
  decode_encode := by
    intro p rest
    rw [List.append_assoc, c.decode_encode]
    simp only [Option.bind_some]
    rw [d.decode_encode, Option.map_some]

/-- A value written as another, and read back where that one denotes it. -/
def via {α β : Type} (c : Codec β) (write : α → β) (read : β → Option α)
    (h : ∀ a, read (write a) = some a) : Codec α where
  encode a := c.encode (write a)
  decode bs := (c.decode bs).bind fun (b, bs) => (read b).map fun a => (a, bs)
  decode_encode := by
    intro a rest
    rw [c.decode_encode]
    simp only [Option.bind_some]
    rw [h, Option.map_some]

end Binary
