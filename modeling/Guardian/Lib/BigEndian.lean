import Guardian.Lib.Bytes
import Mathlib.Order.Compare
import Mathlib.Tactic.Ring

/- Byte strings as big-endian numbers, and the arithmetic of one byte at a time: a
   word of 16 bits is split into the byte it leaves and the carry it passes on. -/
namespace Bytes

def bigEndian (bs : List UInt8) : Nat := littleEndian bs.reverse

theorem littleEndian_append (xs ys : List UInt8) :
    littleEndian (xs ++ ys) = littleEndian xs + 256 ^ xs.length * littleEndian ys := by
  induction xs with
  | nil => simp [littleEndian]
  | cons x xs ih =>
    rw [List.cons_append, littleEndian, littleEndian, ih, List.length_cons, Nat.pow_succ]
    ring

theorem bigEndian_nil : bigEndian [] = 0 := rfl

theorem bigEndian_cons (b : UInt8) (bs : List UInt8) :
    bigEndian (b :: bs) = b.toNat * 256 ^ bs.length + bigEndian bs := by
  rw [bigEndian, List.reverse_cons, littleEndian_append, List.length_reverse, bigEndian]
  simp only [littleEndian]
  ring

theorem bigEndian_append (xs ys : List UInt8) :
    bigEndian (xs ++ ys) = bigEndian xs * 256 ^ ys.length + bigEndian ys := by
  rw [bigEndian, List.reverse_append, littleEndian_append, List.length_reverse, bigEndian, bigEndian]
  ring

theorem bigEndian_lt (bs : List UInt8) : bigEndian bs < 256 ^ bs.length := by
  have h := littleEndian_lt bs.reverse
  rwa [List.length_reverse] at h

theorem bigEndian_inj {bs bs' : List UInt8} (hlen : bs.length = bs'.length)
    (h : bigEndian bs = bigEndian bs') : bs = bs' := by
  refine List.reverse_inj.mp (littleEndian_inj ?_ h)
  rw [List.length_reverse, List.length_reverse, hlen]

theorem bigEndian_eq_zero_iff {bs : List UInt8} : bigEndian bs = 0 ↔ ∀ b ∈ bs, b = 0 := by
  induction bs with
  | nil => simp [bigEndian_nil]
  | cons b bs ih =>
    have hpos : 0 < 256 ^ bs.length := Nat.pow_pos (by decide)
    rw [bigEndian_cons, Nat.add_eq_zero_iff, ih, List.forall_mem_cons, Nat.mul_eq_zero]
    have hb : b.toNat = 0 ↔ b = 0 := by
      rw [← UInt8.toNat_inj]
      rfl
    rw [hb]
    constructor
    · rintro ⟨hzero | hpow, hrest⟩
      · exact ⟨hzero, hrest⟩
      · omega
    · rintro ⟨hzero, hrest⟩
      exact ⟨.inl hzero, hrest⟩

theorem bigEndian_zeros (n : Nat) : bigEndian (List.replicate n 0) = 0 :=
  bigEndian_eq_zero_iff.mpr fun _ hb => List.eq_of_mem_replicate hb

/-- Byte strings in the order of their first difference. -/
def lexCompare : List UInt8 → List UInt8 → Ordering
  | [], [] => .eq
  | [], _ :: _ => .lt
  | _ :: _, [] => .gt
  | a :: as, b :: bs => (compare a.toNat b.toNat).then (lexCompare as bs)

/-- At one length this is the order of the numbers. -/
theorem lexCompare_eq {xs ys : List UInt8} (hlen : xs.length = ys.length) :
    lexCompare xs ys = compare (bigEndian xs) (bigEndian ys) := by
  induction xs generalizing ys with
  | nil =>
    obtain rfl := List.length_eq_zero_iff.mp hlen.symm
    rfl
  | cons x xs ih =>
    cases ys with
    | nil => cases hlen
    | cons y ys =>
      have hrest : xs.length = ys.length := Nat.succ.inj hlen
      have hx := bigEndian_lt xs
      have hy := bigEndian_lt ys
      rw [lexCompare, ih hrest, bigEndian_cons, bigEndian_cons, hrest]
      rw [hrest] at hx
      generalize hp : 256 ^ ys.length = p at hx hy ⊢
      obtain hlt | heq | hgt := lt_trichotomy x.toNat y.toNat
      · have hmul : (x.toNat + 1) * p ≤ y.toNat * p := Nat.mul_le_mul_right p hlt
        rw [Nat.add_one_mul] at hmul
        have hless : x.toNat * p + bigEndian xs < y.toNat * p + bigEndian ys := by omega
        rw [compare_lt_iff_lt.mpr hlt, compare_lt_iff_lt.mpr hless]
        rfl
      · rw [heq, compare_eq_iff_eq.mpr rfl, Ordering.eq_then]
        simp only [compare, compareOfLessAndEq, Nat.add_lt_add_iff_left, Nat.add_left_cancel_iff]
      · have hmul : (y.toNat + 1) * p ≤ x.toNat * p := Nat.mul_le_mul_right p hgt
        rw [Nat.add_one_mul] at hmul
        have hgreater : y.toNat * p + bigEndian ys < x.toNat * p + bigEndian xs := by omega
        rw [compare_gt_iff_gt.mpr hgt, compare_gt_iff_gt.mpr hgreater]
        rfl

/-! ## One byte and its carry -/

/-- `(next & 0xff) as u8`. -/
def lowByte (next : UInt16) : UInt8 := (next &&& 0xff).toUInt8

/-- `next >> 8`. -/
def highByte (next : UInt16) : UInt16 := next >>> 8

theorem toNat_lowByte (next : UInt16) : (lowByte next).toNat = next.toNat % 256 := by
  have hand : (next &&& 0xff).toNat = next.toNat % 256 := by
    rw [UInt16.toNat_and]
    exact Nat.and_two_pow_sub_one_eq_mod next.toNat 8
  rw [lowByte, UInt16.toNat_toUInt8, hand]
  omega

theorem toNat_highByte (next : UInt16) : (highByte next).toNat = next.toNat / 256 := by
  rw [highByte, UInt16.toNat_shiftRight]
  exact Nat.shiftRight_eq_div_pow next.toNat 8

end Bytes
