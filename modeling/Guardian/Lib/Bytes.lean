import Mathlib

/- Byte strings: the UTF-8 bytes of a text, and the packing of a byte string
   into numbers, eight bytes at a time in little-endian order, the last chunk
   padded with zeros.

   1. `utf8_injective`, `utf8_ne_255`, `utf8_ne_zero`: the bytes determine the
      text, no byte is 255, and a zero byte is a NUL character.
   2. `packed_padded`: with every chunk below the modulus, the packing
      determines the bytes up to zeros at the end.
   3. `littleEndian_lt_of_ne_255`: without the byte 255 every chunk is below
      2^64 - 2^32 + 1. -/
namespace Bytes

/-! ## UTF-8 -/

/-- The UTF-8 bytes of a text. -/
def utf8 (text : List Char) : List UInt8 := text.flatMap String.utf8EncodeChar

@[simp] theorem utf8_append (s t : List Char) : utf8 (s ++ t) = utf8 s ++ utf8 t :=
  List.flatMap_append

theorem utf8_injective {s t : List Char} (h : utf8 s = utf8 t) : s = t := by
  have hencode : s.utf8Encode = t.utf8Encode := by
    unfold List.utf8Encode
    exact congrArg List.toByteArray h
  have hdecode := congrArg ByteArray.utf8Decode? hencode
  simpa using hdecode

theorem lead_two_ne : ∀ x : BitVec 8, x &&& 0x1f ||| 0xc0 ≠ 0xff ∧ x &&& 0x1f ||| 0xc0 ≠ 0 := by
  decide

theorem lead_three_ne : ∀ x : BitVec 8, x &&& 0x0f ||| 0xe0 ≠ 0xff ∧ x &&& 0x0f ||| 0xe0 ≠ 0 := by
  decide

theorem lead_four_ne : ∀ x : BitVec 8, x &&& 0x07 ||| 0xf0 ≠ 0xff ∧ x &&& 0x07 ||| 0xf0 ≠ 0 := by
  decide

theorem continuation_ne :
    ∀ x : BitVec 8, x &&& 0x3f ||| 0x80 ≠ 0xff ∧ x &&& 0x3f ||| 0x80 ≠ 0 := by
  decide

theorem ne_of_toBitVec_ne {x y : UInt8} (h : x.toBitVec ≠ y.toBitVec) : x ≠ y :=
  fun e => h (congrArg UInt8.toBitVec e)

theorem utf8EncodeChar_ne {c : Char} {b : UInt8} (h : b ∈ String.utf8EncodeChar c) :
    b ≠ 255 ∧ (b = 0 → c = '\x00') := by
  have lift : ∀ {x : UInt8}, x.toBitVec ≠ 0xff ∧ x.toBitVec ≠ 0 → x ≠ 255 ∧ (x = 0 → c = '\x00') :=
    fun hx => ⟨ne_of_toBitVec_ne hx.1, fun e => absurd e (ne_of_toBitVec_ne hx.2)⟩
  rcases Char.utf8Size_eq c with hsize | hsize | hsize | hsize
  · rw [String.utf8EncodeChar_eq_singleton hsize, List.mem_singleton] at h
    have hle := UInt32.le_iff_toNat_le.mp (Char.utf8Size_eq_one_iff.mp hsize)
    have hval : b.toNat = c.val.toNat := by
      rw [h, UInt32.toNat_toUInt8]
      exact Nat.mod_eq_of_lt (Nat.lt_of_le_of_lt hle (by decide))
    have h127 : c.val.toNat ≤ 127 := hle
    constructor
    · rintro rfl
      rw [← hval] at h127
      exact absurd h127 (by decide)
    · rintro rfl
      exact Char.ext (UInt32.toNat_inj.mp hval.symm)
  · rw [String.utf8EncodeChar_eq_cons_cons hsize] at h
    simp only [List.mem_cons, List.not_mem_nil, or_false] at h
    rcases h with rfl | rfl
    · exact lift (lead_two_ne _)
    · exact lift (continuation_ne _)
  · rw [String.utf8EncodeChar_eq_cons_cons_cons hsize] at h
    simp only [List.mem_cons, List.not_mem_nil, or_false] at h
    rcases h with rfl | rfl | rfl
    · exact lift (lead_three_ne _)
    · exact lift (continuation_ne _)
    · exact lift (continuation_ne _)
  · rw [String.utf8EncodeChar_eq_cons_cons_cons_cons hsize] at h
    simp only [List.mem_cons, List.not_mem_nil, or_false] at h
    rcases h with rfl | rfl | rfl | rfl
    · exact lift (lead_four_ne _)
    · exact lift (continuation_ne _)
    · exact lift (continuation_ne _)
    · exact lift (continuation_ne _)

/-- No UTF-8 text has a byte 255. -/
theorem utf8_ne_255 {text : List Char} {b : UInt8} (h : b ∈ utf8 text) : b ≠ 255 := by
  obtain ⟨c, -, hb⟩ := List.mem_flatMap.mp h
  exact (utf8EncodeChar_ne hb).1

/-- A zero byte is a NUL character. -/
theorem utf8_ne_zero {text : List Char} (htext : '\x00' ∉ text) {b : UInt8} (h : b ∈ utf8 text) :
    b ≠ 0 := by
  obtain ⟨c, hc, hb⟩ := List.mem_flatMap.mp h
  intro hzero
  exact htext ((utf8EncodeChar_ne hb).2 hzero ▸ hc)

theorem utf8_ne_nil {text : List Char} (h : text ≠ []) : utf8 text ≠ [] := by
  obtain ⟨c, t, rfl⟩ := List.exists_cons_of_ne_nil h
  exact fun e => String.utf8EncodeChar_ne_nil (List.append_eq_nil_iff.mp e).1

/-! ## Little-endian numbers -/

def littleEndian : List UInt8 → Nat
  | [] => 0
  | b :: bs => b.toNat + 256 * littleEndian bs

theorem littleEndian_inj {bs bs' : List UInt8} (hlen : bs.length = bs'.length)
    (h : littleEndian bs = littleEndian bs') : bs = bs' := by
  induction bs generalizing bs' with
  | nil => exact (List.length_eq_zero_iff.mp hlen.symm).symm
  | cons b bs ih =>
    cases bs' with
    | nil => cases hlen
    | cons b' bs' =>
      have hb := b.toNat_lt
      have hb' := b'.toNat_lt
      simp only [littleEndian] at h
      have hhead : b.toNat = b'.toNat := by omega
      have htail : littleEndian bs = littleEndian bs' := by omega
      rw [UInt8.toNat_inj.mp hhead, ih (Nat.succ.inj hlen) htail]

theorem littleEndian_lt (bs : List UInt8) : littleEndian bs < 256 ^ bs.length := by
  induction bs with
  | nil => exact Nat.one_pos
  | cons b bs ih =>
    have hb := b.toNat_lt
    rw [littleEndian, List.length_cons, Nat.pow_succ]
    omega

theorem littleEndian_le_of_ne_255 {bs : List UInt8} (h : ∀ b ∈ bs, b ≠ 255) :
    255 * littleEndian bs + 254 ≤ 254 * 256 ^ bs.length := by
  induction bs with
  | nil => exact Nat.le_refl _
  | cons b bs ih =>
    have hrest := ih fun c hc => h c (.tail _ hc)
    have hb : b.toNat < 255 := by
      have hlt := b.toNat_lt
      have hne : b.toNat ≠ 255 := fun e => h b List.mem_cons_self (UInt8.toNat_inj.mp e)
      omega
    rw [littleEndian, List.length_cons, Nat.pow_succ]
    omega

/-! ## Chunks -/

/-- Consecutive chunks of `k` bytes, the last one possibly shorter. -/
def chunks (k : Nat) (bs : List UInt8) : List (List UInt8) :=
  (List.range ((bs.length + k - 1) / k)).map fun i => (bs.drop (i * k)).take k

/-- A chunk copied into `k` zero bytes. -/
def pad (k : Nat) (chunk : List UInt8) : List UInt8 :=
  chunk ++ List.replicate (k - chunk.length) 0

theorem chunks_nil {k : Nat} (hk : 0 < k) : chunks k [] = [] := by
  have hcount : (([] : List UInt8).length + k - 1) / k = 0 := by
    rw [List.length_nil]
    exact Nat.div_eq_of_lt (by omega)
  rw [chunks, hcount, List.range_zero, List.map_nil]

theorem chunks_eq_cons {k : Nat} (hk : 0 < k) {bs : List UInt8} (h : bs ≠ []) :
    chunks k bs = bs.take k :: chunks k (bs.drop k) := by
  have hpos := List.length_pos_of_ne_nil h
  have hcount : (bs.length + k - 1) / k = ((bs.drop k).length + k - 1) / k + 1 := by
    rw [List.length_drop]
    by_cases hle : k ≤ bs.length
    · rw [show bs.length + k - 1 = (bs.length - k + k - 1) + k by omega, Nat.add_div_right _ hk]
    · rw [show bs.length + k - 1 = (bs.length - 1) + k by omega, Nat.add_div_right _ hk,
        Nat.div_eq_of_lt (by omega), Nat.div_eq_of_lt (by omega)]
  rw [chunks, hcount, List.range_succ_eq_map, List.map_cons, List.map_map]
  congr 1
  · simp
  · refine List.map_congr_left fun i _ => ?_
    simp only [Function.comp_apply, List.drop_drop]
    congr 2
    rw [Nat.succ_mul, Nat.add_comm]

theorem chunks_eq_nil_iff {k : Nat} (hk : 0 < k) {bs : List UInt8} : chunks k bs = [] ↔ bs = [] := by
  constructor
  · intro h
    by_contra hne
    rw [chunks_eq_cons hk hne] at h
    cases h
  · rintro rfl
    exact chunks_nil hk

theorem length_pad {k : Nat} {chunk : List UInt8} (h : chunk.length ≤ k) :
    (pad k chunk).length = k := by
  rw [pad, List.length_append, List.length_replicate]
  omega

theorem length_pad_take (k : Nat) (bs : List UInt8) : (pad k (bs.take k)).length = k :=
  length_pad (List.length_take_le k bs)

theorem pad_take_of_le {k : Nat} {bs : List UInt8} (h : k ≤ bs.length) :
    pad k (bs.take k) = bs.take k := by
  rw [pad, List.length_take_of_le h, Nat.sub_self, List.replicate_zero, List.append_nil]

/-- Byte strings with the same padded chunks are the same up to zeros at the end. -/
theorem padded_of_chunks {k : Nat} (hk : 0 < k) {bs bs' : List UInt8}
    (h : (chunks k bs).map (pad k) = (chunks k bs').map (pad k)) :
    ∃ i j, bs ++ List.replicate i 0 = bs' ++ List.replicate j 0 := by
  induction hn : bs.length using Nat.strong_induction_on generalizing bs bs' with
  | _ n ih =>
    by_cases hbs : bs = []
    · subst hbs
      rw [chunks_nil hk, List.map_nil, eq_comm, List.map_eq_nil_iff, chunks_eq_nil_iff hk] at h
      exact ⟨0, 0, by rw [h]⟩
    by_cases hbs' : bs' = []
    · subst hbs'
      rw [chunks_nil hk, List.map_nil, List.map_eq_nil_iff, chunks_eq_nil_iff hk] at h
      exact ⟨0, 0, by rw [h]⟩
    rw [chunks_eq_cons hk hbs, chunks_eq_cons hk hbs', List.map_cons, List.map_cons,
      List.cons.injEq] at h
    obtain ⟨hhead, htail⟩ := h
    by_cases hlast : bs.drop k = []
    · -- The last chunk: the padded chunk is the whole string and zeros.
      rw [hlast, chunks_nil hk, List.map_nil, eq_comm, List.map_eq_nil_iff,
        chunks_eq_nil_iff hk] at htail
      rw [List.take_of_length_le (List.drop_eq_nil_iff.mp hlast),
        List.take_of_length_le (List.drop_eq_nil_iff.mp htail)] at hhead
      exact ⟨_, _, hhead⟩
    · have hlast' : bs'.drop k ≠ [] := by
        intro e
        rw [e, chunks_nil hk, List.map_nil, List.map_eq_nil_iff, chunks_eq_nil_iff hk] at htail
        exact hlast htail
      have hlong : k < bs.length := by
        rw [List.drop_eq_nil_iff] at hlast
        omega
      have hlong' : k < bs'.length := by
        rw [Ne, List.drop_eq_nil_iff] at hlast'
        omega
      obtain ⟨i, j, hrest⟩ := ih (bs.drop k).length (by rw [List.length_drop]; omega) htail rfl
      rw [pad_take_of_le hlong.le, pad_take_of_le hlong'.le] at hhead
      refine ⟨i, j, ?_⟩
      calc bs ++ List.replicate i 0 = bs.take k ++ (bs.drop k ++ List.replicate i 0) := by
            rw [← List.append_assoc, List.take_append_drop]
        _ = bs'.take k ++ (bs'.drop k ++ List.replicate j 0) := by rw [hhead, hrest]
        _ = bs' ++ List.replicate j 0 := by rw [← List.append_assoc, List.take_append_drop]

/-- A byte string that does not end in a zero is determined up to zeros at the end. -/
theorem eq_of_padded {bs bs' : List UInt8} {i j : Nat} (hbs : ∀ h : bs ≠ [], bs.getLast h ≠ 0)
    (hbs' : ∀ h : bs' ≠ [], bs'.getLast h ≠ 0)
    (h : bs ++ List.replicate i 0 = bs' ++ List.replicate j 0) : bs = bs' := by
  have hstrip : ∀ (cs : List UInt8) (n : Nat), (∀ h : cs ≠ [], cs.getLast h ≠ 0) →
      (cs ++ List.replicate n 0).rdropWhile (· == 0) = cs := by
    intro cs n hcs
    induction n with
    | zero =>
      rw [List.replicate_zero, List.append_nil, List.rdropWhile_eq_self_iff]
      intro hne hzero
      exact hcs hne (by simpa using hzero)
    | succ n ih =>
      rw [List.replicate_succ', ← List.append_assoc, List.rdropWhile_concat_pos _ _ _ (by simp), ih]
  rw [← hstrip bs i hbs, h, hstrip bs' j hbs']

/-! ## Packing -/

/-- The chunks of eight bytes as little-endian numbers modulo `p`. -/
def pack (p : Nat) (bs : List UInt8) : List Nat :=
  (chunks 8 bs).map fun chunk => littleEndian (pad 8 chunk) % p

theorem mem_of_mem_chunks {k : Nat} {bs chunk : List UInt8} (h : chunk ∈ chunks k bs) :
    (∀ b ∈ chunk, b ∈ bs) ∧ chunk.length ≤ k := by
  obtain ⟨i, -, rfl⟩ := List.mem_map.mp h
  exact ⟨fun b hb => List.mem_of_mem_drop (List.mem_of_mem_take hb), List.length_take_le _ _⟩

theorem length_pack (p : Nat) (bs : List UInt8) : (pack p bs).length = (bs.length + 7) / 8 := by
  simp [pack, chunks]

/-- Where no chunk reaches the modulus, the packing determines the padded bytes. -/
theorem packed_padded {p : Nat} {bs bs' : List UInt8}
    (hbs : ∀ chunk ∈ chunks 8 bs, littleEndian (pad 8 chunk) < p)
    (hbs' : ∀ chunk ∈ chunks 8 bs', littleEndian (pad 8 chunk) < p)
    (h : pack p bs = pack p bs') : ∃ i j, bs ++ List.replicate i 0 = bs' ++ List.replicate j 0 := by
  apply padded_of_chunks (k := 8) (by decide)
  have hvalues : (chunks 8 bs).map (fun c => littleEndian (pad 8 c)) =
      (chunks 8 bs').map (fun c => littleEndian (pad 8 c)) := by
    have hdrop : ∀ cs : List (List UInt8), (∀ c ∈ cs, littleEndian (pad 8 c) < p) →
        cs.map (fun c => littleEndian (pad 8 c) % p) = cs.map (fun c => littleEndian (pad 8 c)) :=
      fun cs hcs => List.map_congr_left fun c hc => Nat.mod_eq_of_lt (hcs c hc)
    rw [← hdrop _ hbs, ← hdrop _ hbs']
    exact h
  have hlen : (chunks 8 bs).length = (chunks 8 bs').length := by
    simpa using congrArg List.length hvalues
  refine List.ext_getElem (by simpa using hlen) fun n hn hn' => ?_
  have hval := List.getElem_of_eq hvalues (by simpa using hn)
  simp only [List.getElem_map] at hval ⊢
  refine littleEndian_inj ?_ hval
  rw [length_pad (mem_of_mem_chunks (List.getElem_mem _)).2,
    length_pad (mem_of_mem_chunks (List.getElem_mem _)).2]

/-- Without the byte 255 a chunk is below 2^64 - 2^32 + 1. -/
theorem littleEndian_lt_of_ne_255 {bs chunk : List UInt8} (h : ∀ b ∈ bs, b ≠ 255)
    (hchunk : chunk ∈ chunks 8 bs) : littleEndian (pad 8 chunk) < 2 ^ 64 - 2 ^ 32 + 1 := by
  obtain ⟨hmem, hlen⟩ := mem_of_mem_chunks hchunk
  have hne : ∀ b ∈ pad 8 chunk, b ≠ 255 := by
    intro b hb
    rcases List.mem_append.mp hb with hb | hb
    · exact h b (hmem b hb)
    · rw [List.eq_of_mem_replicate hb]
      decide
  have hle := littleEndian_le_of_ne_255 hne
  rw [length_pad hlen] at hle
  omega

/-! ## Chunks that wrap around -/

/-- The chunk `b` is `c` plus the modulus 2^64 - 2^32 + 1. -/
def Wraps (b c : List UInt8) : Prop :=
  ∃ b0 b1 b2 b3 c0 c1 c2 c3 : UInt8, b = [b0, b1, b2, b3] ++ List.replicate 4 255 ∧
    c = [c0, c1, c2, c3] ++ List.replicate 4 0 ∧
    littleEndian [b0, b1, b2, b3] = littleEndian [c0, c1, c2, c3] + 1

theorem exists_of_length_eight {b : List UInt8} (h : b.length = 8) :
    ∃ b0 b1 b2 b3 b4 b5 b6 b7, b = [b0, b1, b2, b3, b4, b5, b6, b7] := by
  match b, h with
  | [b0, b1, b2, b3, b4, b5, b6, b7], _ => exact ⟨b0, b1, b2, b3, b4, b5, b6, b7, rfl⟩

theorem wraps_of_add_eq {b c : List UInt8} (hb : b.length = 8) (hc : c.length = 8)
    (h : littleEndian b = littleEndian c + (2 ^ 64 - 2 ^ 32 + 1)) : Wraps b c := by
  obtain ⟨b0, b1, b2, b3, b4, b5, b6, b7, rfl⟩ := exists_of_length_eight hb
  obtain ⟨c0, c1, c2, c3, c4, c5, c6, c7, rfl⟩ := exists_of_length_eight hc
  have hlow : ∀ x y z w : UInt8, littleEndian [x, y, z, w] < 2 ^ 32 := by
    intro x y z w
    have hlt := littleEndian_lt [x, y, z, w]
    rw [show [x, y, z, w].length = 4 from rfl] at hlt
    omega
  have hsplit : ∀ x0 x1 x2 x3 x4 x5 x6 x7 : UInt8,
      littleEndian [x0, x1, x2, x3, x4, x5, x6, x7] =
        littleEndian [x0, x1, x2, x3] + 2 ^ 32 * littleEndian [x4, x5, x6, x7] := by
    intro x0 x1 x2 x3 x4 x5 x6 x7
    simp only [littleEndian]
    omega
  rw [hsplit, hsplit] at h
  have hb' := hlow b0 b1 b2 b3
  have hc' := hlow c0 c1 c2 c3
  have hb4 := hlow b4 b5 b6 b7
  have hhigh : littleEndian [c4, c5, c6, c7] = littleEndian [0, 0, 0, 0] := by
    rw [show littleEndian [0, 0, 0, 0] = 0 from rfl]
    omega
  have hhigh' : littleEndian [b4, b5, b6, b7] = littleEndian [255, 255, 255, 255] := by
    have hmax : littleEndian [255, 255, 255, 255] = 2 ^ 32 - 1 := by simp [littleEndian]
    omega
  have hzeros : [c4, c5, c6, c7] = [0, 0, 0, 0] := littleEndian_inj rfl hhigh
  have hones : [b4, b5, b6, b7] = [255, 255, 255, 255] := littleEndian_inj rfl hhigh'
  refine ⟨b0, b1, b2, b3, c0, c1, c2, c3, ?_, ?_, by omega⟩
  · exact congrArg ([b0, b1, b2, b3] ++ ·) hones
  · exact congrArg ([c0, c1, c2, c3] ++ ·) hzeros

/-- Different chunks that are the same modulo 2^64 - 2^32 + 1. -/
theorem wraps_of_mod_eq {b c : List UInt8} (hb : b.length = 8) (hc : c.length = 8) (hne : b ≠ c)
    (h : littleEndian b % (2 ^ 64 - 2 ^ 32 + 1) = littleEndian c % (2 ^ 64 - 2 ^ 32 + 1)) :
    Wraps b c ∨ Wraps c b := by
  have hblt := littleEndian_lt b
  have hclt := littleEndian_lt c
  rw [hb] at hblt
  rw [hc] at hclt
  have hvalue : littleEndian b ≠ littleEndian c :=
    fun e => hne (littleEndian_inj (hb.trans hc.symm) e)
  by_cases hlt : littleEndian c < littleEndian b
  · exact .inl (wraps_of_add_eq hb hc (by omega))
  · exact .inr (wraps_of_add_eq hc hb (by omega))

theorem pad_take_append_drop (k : Nat) (bs : List UInt8) :
    pad k (bs.take k) ++ bs.drop k = bs ++ List.replicate (k - bs.length) 0 := by
  by_cases h : k ≤ bs.length
  · rw [pad_take_of_le h, List.take_append_drop, Nat.sub_eq_zero_of_le h, List.replicate_zero,
      List.append_nil]
  · rw [List.take_of_length_le (by omega), List.drop_eq_nil_of_le (by omega), List.append_nil, pad]

/-- Byte strings with the same packing are the same up to zeros at the end, or differ first in
a chunk that wraps around. -/
theorem packed_padded_or_wraps {bs bs' : List UInt8}
    (h : pack (2 ^ 64 - 2 ^ 32 + 1) bs = pack (2 ^ 64 - 2 ^ 32 + 1) bs') :
    (∃ i j, bs ++ List.replicate i 0 = bs' ++ List.replicate j 0) ∨
    ∃ p b c t t' i j, 8 ∣ p.length ∧ bs ++ List.replicate i 0 = p ++ (b ++ t) ∧
      bs' ++ List.replicate j 0 = p ++ (c ++ t') ∧ (Wraps b c ∨ Wraps c b) := by
  induction hn : bs.length using Nat.strong_induction_on generalizing bs bs' with
  | _ n ih =>
    unfold pack at h ih
    have hk : 0 < 8 := by decide
    by_cases hbs : bs = []
    · subst hbs
      rw [chunks_nil hk, List.map_nil, eq_comm, List.map_eq_nil_iff, chunks_eq_nil_iff hk] at h
      exact .inl ⟨0, 0, by rw [h]⟩
    by_cases hbs' : bs' = []
    · subst hbs'
      rw [chunks_nil hk, List.map_nil, List.map_eq_nil_iff, chunks_eq_nil_iff hk] at h
      exact .inl ⟨0, 0, by rw [h]⟩
    rw [chunks_eq_cons hk hbs, chunks_eq_cons hk hbs', List.map_cons, List.map_cons,
      List.cons.injEq] at h
    obtain ⟨hhead, htail⟩ := h
    by_cases hfirst : pad 8 (bs.take 8) = pad 8 (bs'.take 8)
    · by_cases hlast : bs.drop 8 = []
      · have hlast' : bs'.drop 8 = [] := by
          rwa [hlast, chunks_nil hk, List.map_nil, eq_comm, List.map_eq_nil_iff,
            chunks_eq_nil_iff hk] at htail
        have hpad := pad_take_append_drop 8 bs
        have hpad' := pad_take_append_drop 8 bs'
        rw [hlast, List.append_nil, hfirst] at hpad
        rw [hlast', List.append_nil] at hpad'
        exact .inl ⟨_, _, hpad.symm.trans hpad'⟩
      · have hlast' : bs'.drop 8 ≠ [] := by
          intro e
          rw [e, chunks_nil hk, List.map_nil, List.map_eq_nil_iff, chunks_eq_nil_iff hk] at htail
          exact hlast htail
        rw [List.drop_eq_nil_iff] at hlast
        rw [Ne, List.drop_eq_nil_iff] at hlast'
        rw [pad_take_of_le (by omega), pad_take_of_le (by omega)] at hfirst
        have hcut : ∀ (cs zs : List UInt8), cs ++ zs = cs.take 8 ++ (cs.drop 8 ++ zs) := by
          intro cs zs
          rw [← List.append_assoc, List.take_append_drop]
        rcases ih (bs.drop 8).length (by rw [List.length_drop]; omega) htail rfl with
          ⟨i, j, hrest⟩ | ⟨p, b, c, t, t', i, j, hp, hrest, hrest', hwraps⟩
        · exact .inl ⟨i, j, by rw [hcut bs, hcut bs', hfirst, hrest]⟩
        · refine .inr ⟨bs.take 8 ++ p, b, c, t, t', i, j, ?_, ?_, ?_, hwraps⟩
          · rw [List.length_append, List.length_take]
            omega
          · rw [hcut bs, hrest, List.append_assoc]
          · rw [hcut bs', hrest', hfirst, List.append_assoc]
    · refine .inr ⟨[], _, _, bs.drop 8, bs'.drop 8, 8 - bs.length, 8 - bs'.length, by simp,
        (pad_take_append_drop 8 bs).symm, (pad_take_append_drop 8 bs').symm, ?_⟩
      exact wraps_of_mod_eq (length_pad_take 8 bs) (length_pad_take 8 bs') hfirst hhead

end Bytes
