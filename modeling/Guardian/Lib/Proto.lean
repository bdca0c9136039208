import Guardian.Lib.Bytes

/- The proto3 encoding of messages whose fields are strings and integers,
   numbered below 16: each field is its key, one byte, and its value; fields with
   their default value are left out.

   1. `IsVarint`: the shape of a varint, and that it ends where it ends.
   2. `encodeField_unique`: a field can be read off the front of the bytes.
   3. `encode_unique`: the bytes determine the message, also with zeros after
      them.
   4. `run_of_255`: where four bytes 255 in a row can be. -/
namespace Proto
open Bytes

/-! ## Varints -/

/-- The loop of an encoder, which writes at most `fuel` bytes. -/
def encodeVarint : Nat → Nat → List UInt8
  | 0, _ => []
  | fuel + 1, n =>
    if n < 128 then [UInt8.ofNat n] else UInt8.ofNat (n % 128 + 128) :: encodeVarint fuel (n / 128)

/-- Ten bytes hold 64 bits. -/
def varint (n : Nat) : List UInt8 := encodeVarint 10 n

/-- Seven bits a byte, the eighth set in all but the last, and no more bytes than needed. -/
inductive IsVarint : List UInt8 → Prop where
  | last {b : UInt8} : b.toNat < 128 → IsVarint [b]
  | more {b : UInt8} {v : List UInt8} : 128 ≤ b.toNat → IsVarint v → v ≠ [0] → IsVarint (b :: v)

theorem toNat_byte {n : Nat} (h : n < 256) : (UInt8.ofNat n).toNat = n :=
  UInt8.toNat_ofNat_of_lt' h

theorem encodeVarint_ne_zero {fuel n : Nat} (hn : n ≠ 0) (h : n < 128 ^ fuel) :
    encodeVarint fuel n ≠ [0] := by
  cases fuel with
  | zero => rw [Nat.pow_zero] at h; omega
  | succ fuel =>
    rw [encodeVarint]
    split
    · intro e
      have hzero := congrArg UInt8.toNat (List.cons.inj e).1
      rw [toNat_byte (by omega)] at hzero
      exact hn hzero
    · intro e
      have hzero := congrArg UInt8.toNat (List.cons.inj e).1
      rw [toNat_byte (by omega)] at hzero
      simp at hzero

theorem isVarint_encodeVarint {fuel n : Nat} (h : n < 128 ^ fuel) (hfuel : fuel ≠ 0) :
    IsVarint (encodeVarint fuel n) := by
  induction fuel generalizing n with
  | zero => exact absurd rfl hfuel
  | succ fuel ih =>
    rw [encodeVarint]
    split
    · refine .last ?_
      rw [toNat_byte (by omega)]
      assumption
    · next hlarge =>
      have hrest : n / 128 < 128 ^ fuel := by
        rw [Nat.pow_succ] at h
        exact Nat.div_lt_of_lt_mul (by omega)
      have hfuel : fuel ≠ 0 := by
        rintro rfl
        rw [Nat.pow_zero] at hrest
        omega
      refine .more ?_ (ih hrest hfuel) (encodeVarint_ne_zero (by omega) hrest)
      rw [toNat_byte (by omega)]
      omega

theorem encodeVarint_injective {fuel n n' : Nat} (h : n < 128 ^ fuel) (h' : n' < 128 ^ fuel)
    (heq : encodeVarint fuel n = encodeVarint fuel n') : n = n' := by
  induction fuel generalizing n n' with
  | zero => rw [Nat.pow_zero] at h h'; omega
  | succ fuel ih =>
    rw [Nat.pow_succ] at h h'
    rw [encodeVarint, encodeVarint] at heq
    split at heq <;> split at heq
    · have hval := congrArg UInt8.toNat (List.cons.inj heq).1
      rwa [toNat_byte (by omega), toNat_byte (by omega)]
        at hval
    · have hval := congrArg UInt8.toNat (List.cons.inj heq).1
      rw [toNat_byte (by omega), toNat_byte (by omega)]
        at hval
      omega
    · have hval := congrArg UInt8.toNat (List.cons.inj heq).1
      rw [toNat_byte (by omega), toNat_byte (by omega)]
        at hval
      omega
    · have hval := congrArg UInt8.toNat (List.cons.inj heq).1
      rw [toNat_byte (by omega), toNat_byte (by omega)]
        at hval
      have hrest := ih (Nat.div_lt_of_lt_mul (by omega)) (Nat.div_lt_of_lt_mul (by omega))
        (List.cons.inj heq).2
      omega

theorem length_encodeVarint_le {fuel k n : Nat} (h : n < 128 ^ (k + 1)) :
    (encodeVarint fuel n).length ≤ k + 1 := by
  induction fuel generalizing k n with
  | zero => exact Nat.zero_le _
  | succ fuel ih =>
    rw [encodeVarint]
    split
    · exact Nat.le_add_left 1 k
    · next hlarge =>
      cases k with
      | zero => rw [Nat.zero_add, Nat.pow_one] at h; omega
      | succ k =>
        rw [Nat.pow_succ] at h
        have hrest := ih (k := k) (Nat.div_lt_of_lt_mul (by omega) : n / 128 < _)
        rw [List.length_cons]
        omega

theorem isVarint_varint {n : Nat} (h : n < 2 ^ 64) : IsVarint (varint n) :=
  isVarint_encodeVarint (Nat.lt_trans h (by decide)) (by decide)

theorem varint_injective {n n' : Nat} (h : n < 2 ^ 64) (h' : n' < 2 ^ 64)
    (heq : varint n = varint n') : n = n' :=
  encodeVarint_injective (Nat.lt_trans h (by decide)) (Nat.lt_trans h' (by decide)) heq

theorem IsVarint.ne_nil {v : List UInt8} (h : IsVarint v) : v ≠ [] := by
  cases h <;> exact List.cons_ne_nil _ _

/-- A varint ends where it ends. -/
theorem IsVarint.append_inj {v v' r r' : List UInt8} (h : IsVarint v) (h' : IsVarint v')
    (heq : v ++ r = v' ++ r') : v = v' ∧ r = r' := by
  induction h generalizing v' with
  | @last b hb =>
    cases h' with
    | last _ => simpa using heq
    | more hb' _ _ =>
      have hhead := (List.cons.inj heq).1
      rw [hhead] at hb
      omega
  | @more b v hb _ _ ih =>
    cases h' with
    | last hb' =>
      have hhead := (List.cons.inj heq).1
      rw [hhead] at hb
      omega
    | more _ hv' _ =>
      obtain ⟨hhead, htail⟩ := List.cons.inj heq
      obtain ⟨rfl, hr⟩ := ih hv' htail
      exact ⟨by rw [hhead], hr⟩

/-- A varint that goes on after `p`, which may be followed by the last byte zero only if it is
that byte. -/
theorem IsVarint.split {v p r r' : List UInt8} (h : IsVarint v) (hp : ∀ b ∈ p, 128 ≤ b.toNat)
    (heq : v ++ r = p ++ r') : ∃ w, v = p ++ w ∧ IsVarint w ∧ w ++ r = r' ∧ (p ≠ [] → w ≠ [0]) := by
  induction p generalizing v with
  | nil => exact ⟨v, rfl, h, heq, fun hne => absurd rfl hne⟩
  | cons b p ih =>
    have hb := hp b List.mem_cons_self
    cases h with
    | last hlast =>
      have hhead := (List.cons.inj heq).1
      rw [hhead] at hlast
      omega
    | @more c v _ hv hne =>
      obtain ⟨hhead, htail⟩ := List.cons.inj heq
      obtain ⟨w, hw, hwv, hwr, hwne⟩ := ih hv (fun d hd => hp d (.tail _ hd)) htail
      refine ⟨w, by rw [hhead, hw]; rfl, hwv, hwr, fun _ => ?_⟩
      by_cases hnil : p = []
      · subst hnil
        rw [List.nil_append] at hw
        exact hw ▸ hne
      · exact hwne hnil

/-! ## Messages -/

/-- A string; lengths are below 2^28. -/
abbrev Text := { s : String // (utf8 s.toList).length < 2 ^ 28 }

inductive FieldKind where
  | string
  | optionalString
  | uint64
  | optionalUint32
  deriving DecidableEq

def FieldKind.Value : FieldKind → Type
  | .string => Text
  | .optionalString => Option Text
  | .uint64 => UInt64
  | .optionalUint32 => Option UInt32

def FieldKind.isText : FieldKind → Bool
  | .string => true
  | .optionalString => true
  | .uint64 => false
  | .optionalUint32 => false

structure Field where
  number : Nat
  kind : FieldKind
  deriving DecidableEq

/-- The key: the number of the field and its wire type, in one byte below 16. -/
def Field.key (f : Field) : UInt8 := UInt8.ofNat (8 * f.number + if f.kind.isText then 2 else 0)

/-- The values of the fields of a message. -/
def Record : List Field → Type
  | [] => Unit
  | f :: fields => f.kind.Value × Record fields

/-- A length and so many bytes. -/
def delimited (bytes : List UInt8) : List UInt8 := varint bytes.length ++ bytes

def stringBody (s : Text) : Option (List UInt8) :=
  if s.1 = "" then none else some (delimited (utf8 s.1.toList))

def optionalStringBody (s : Option Text) : Option (List UInt8) :=
  s.map fun s => delimited (utf8 s.1.toList)

def uint64Body (n : UInt64) : Option (List UInt8) :=
  if n = 0 then none else some (varint n.toNat)

def optionalUint32Body (n : Option UInt32) : Option (List UInt8) := n.map fun n => varint n.toNat

/-- What follows the key, unless the field is left out. -/
def body : (kind : FieldKind) → kind.Value → Option (List UInt8)
  | .string => stringBody
  | .optionalString => optionalStringBody
  | .uint64 => uint64Body
  | .optionalUint32 => optionalUint32Body

def encodeField (f : Field) (v : f.kind.Value) : List UInt8 :=
  match body f.kind v with
  | none => []
  | some bytes => f.key :: bytes

def encode : (fields : List Field) → Record fields → List UInt8
  | [], _ => []
  | f :: fields, m => encodeField f m.1 ++ encode fields m.2

/-- The fields are numbered in order, above `k` and below 16. -/
def Declared : Nat → List Field → Prop
  | _, [] => True
  | k, f :: fields => k < f.number ∧ f.number < 16 ∧ Declared f.number fields

/-! ## Reading a field -/

theorem encodeField_none {f : Field} {v : f.kind.Value} (h : body f.kind v = none) :
    encodeField f v = [] := by
  rw [encodeField, h]

theorem encodeField_some {f : Field} {v : f.kind.Value} {b : List UInt8}
    (h : body f.kind v = some b) : encodeField f v = f.key :: b := by
  rw [encodeField, h]

theorem delimited_inj {bs bs' r r' : List UInt8} (h : bs.length < 2 ^ 28) (h' : bs'.length < 2 ^ 28)
    (heq : delimited bs ++ r = delimited bs' ++ r') : bs = bs' ∧ r = r' := by
  rw [delimited, delimited, List.append_assoc, List.append_assoc] at heq
  obtain ⟨hlen, hrest⟩ := (isVarint_varint (by omega)).append_inj (isVarint_varint (by omega)) heq
  exact List.append_inj hrest (varint_injective (by omega) (by omega) hlen)

theorem text_ext {s s' : Text} (h : utf8 s.1.toList = utf8 s'.1.toList) : s = s' :=
  Subtype.ext (String.toList_injective (utf8_injective h))

theorem body_unique {kind : FieldKind} {v v' : kind.Value} {b b' r r' : List UInt8}
    (h : body kind v = some b) (h' : body kind v' = some b') (heq : b ++ r = b' ++ r') :
    v = v' ∧ r = r' := by
  cases kind with
  | string =>
    simp only [body, stringBody] at h h'
    split at h <;> cases h
    split at h' <;> cases h'
    obtain ⟨hbytes, hr⟩ := delimited_inj v.2 v'.2 heq
    exact ⟨text_ext hbytes, hr⟩
  | optionalString =>
    obtain ⟨s, rfl, rfl⟩ := Option.map_eq_some_iff.mp h
    obtain ⟨s', rfl, rfl⟩ := Option.map_eq_some_iff.mp h'
    obtain ⟨hbytes, hr⟩ := delimited_inj s.2 s'.2 heq
    exact ⟨congrArg some (text_ext hbytes), hr⟩
  | uint64 =>
    simp only [body, uint64Body] at h h'
    split at h <;> cases h
    split at h' <;> cases h'
    obtain ⟨hbytes, hr⟩ := (isVarint_varint (UInt64.toNat_lt v)).append_inj
      (isVarint_varint (UInt64.toNat_lt v')) heq
    exact ⟨UInt64.toNat_inj.mp (varint_injective (UInt64.toNat_lt v) (UInt64.toNat_lt v') hbytes), hr⟩
  | optionalUint32 =>
    obtain ⟨n, rfl, rfl⟩ := Option.map_eq_some_iff.mp h
    obtain ⟨n', rfl, rfl⟩ := Option.map_eq_some_iff.mp h'
    have hn : n.toNat < 2 ^ 64 := Nat.lt_trans n.toNat_lt (by decide)
    have hn' : n'.toNat < 2 ^ 64 := Nat.lt_trans n'.toNat_lt (by decide)
    obtain ⟨hbytes, hr⟩ := (isVarint_varint hn).append_inj (isVarint_varint hn') heq
    exact ⟨congrArg some (UInt32.toNat_inj.mp (varint_injective hn hn' hbytes)), hr⟩

/-- A field is left out for one value only. -/
theorem body_none_unique {kind : FieldKind} {v v' : kind.Value} (h : body kind v = none)
    (h' : body kind v' = none) : v = v' := by
  cases kind with
  | string =>
    simp only [body, stringBody, ite_eq_left_iff, reduceCtorEq, imp_false, Decidable.not_not] at h h'
    exact Subtype.ext (h.trans h'.symm)
  | optionalString =>
    exact (Option.map_eq_none_iff.mp h).trans (Option.map_eq_none_iff.mp h').symm
  | uint64 =>
    simp only [body, uint64Body, ite_eq_left_iff, reduceCtorEq, imp_false] at h h'
    exact (Classical.not_not.mp h).trans (Classical.not_not.mp h').symm
  | optionalUint32 =>
    exact (Option.map_eq_none_iff.mp h).trans (Option.map_eq_none_iff.mp h').symm

/-- A field can be read off the front, if what follows does not begin with its key. -/
theorem encodeField_unique {f : Field} {v v' : f.kind.Value} {r r' : List UInt8}
    (hr : body f.kind v = none → r.head? ≠ some f.key)
    (hr' : body f.kind v' = none → r'.head? ≠ some f.key)
    (h : encodeField f v ++ r = encodeField f v' ++ r') : v = v' ∧ r = r' := by
  cases hb : body f.kind v with
  | none =>
    cases hb' : body f.kind v' with
    | none =>
      rw [encodeField_none hb, encodeField_none hb'] at h
      exact ⟨body_none_unique hb hb', h⟩
    | some b' =>
      rw [encodeField_none hb, encodeField_some hb', List.nil_append] at h
      exact absurd (by rw [h]; rfl) (hr hb)
  | some b =>
    cases hb' : body f.kind v' with
    | none =>
      rw [encodeField_some hb, encodeField_none hb', List.nil_append] at h
      exact absurd (by rw [← h]; rfl) (hr' hb')
    | some b' =>
      rw [encodeField_some hb, encodeField_some hb'] at h
      exact body_unique hb hb' (List.cons.inj h).2

/-! ## What a field begins with -/

theorem toNat_key {f : Field} (h : f.number < 16) :
    f.key.toNat = 8 * f.number + if f.kind.isText then 2 else 0 := by
  refine toNat_byte ?_
  split <;> omega

/-- Nothing, or a zero, or the key of a field above `k`. -/
def Opens (k : Nat) (r : List UInt8) : Prop :=
  ∀ b ∈ r.head?, b = 0 ∨ ∃ f : Field, k < f.number ∧ f.number < 16 ∧ b = f.key

theorem opens_zeros (k i : Nat) : Opens k (List.replicate i 0) := by
  intro b hb
  exact .inl (List.eq_of_mem_replicate (List.mem_of_mem_head? hb))

theorem Opens.mono {k k' : Nat} {r : List UInt8} (h : Opens k' r) (hk : k ≤ k') : Opens k r := by
  intro b hb
  rcases h b hb with hzero | ⟨f, hf, hf16, hkey⟩
  · exact .inl hzero
  · exact .inr ⟨f, Nat.lt_of_le_of_lt hk hf, hf16, hkey⟩

theorem opens_encodeField {k : Nat} {f : Field} (hk : k < f.number) (hf : f.number < 16)
    {v : f.kind.Value} {r : List UInt8} (hr : Opens k r) : Opens k (encodeField f v ++ r) := by
  unfold encodeField
  split
  · exact hr
  · intro b hb
    exact .inr ⟨f, hk, hf, (Option.some.inj hb).symm⟩

theorem opens_encode {k : Nat} {fields : List Field} (h : Declared k fields) (m : Record fields)
    {r : List UInt8} (hr : ∀ k, Opens k r) : Opens k (encode fields m ++ r) := by
  induction fields generalizing k with
  | nil => exact hr k
  | cons f fields ih =>
    rw [encode, List.append_assoc]
    exact opens_encodeField h.1 h.2.1 ((ih h.2.2 m.2).mono h.1.le)

/-- Keys are below 128, and end in the bits of a wire type. -/
def Keylike (b : UInt8) : Prop := b.toNat < 128 ∧ (b.toNat % 8 = 0 ∨ b.toNat % 8 = 2)

theorem keylike_key {f : Field} (hf : f.number < 16) : Keylike f.key := by
  unfold Keylike
  rw [toNat_key hf]
  split <;> omega

theorem Opens.head {k : Nat} {b : UInt8} {r : List UInt8} (h : Opens k (b :: r)) : Keylike b := by
  rcases h b rfl with rfl | ⟨f, -, hf, rfl⟩
  · exact ⟨by decide, .inl rfl⟩
  · exact keylike_key hf

theorem Opens.ne_key {f : Field} {r : List UInt8} (h : Opens f.number r) (hf : f.number < 16)
    (hzero : f.key ≠ 0) : r.head? ≠ some f.key := by
  intro hhead
  rcases h f.key hhead with h0 | ⟨g, hg, hg16, hkey⟩
  · exact hzero h0
  · have hval := congrArg UInt8.toNat hkey
    rw [toNat_key hf, toNat_key hg16] at hval
    split at hval <;> split at hval <;> omega

theorem key_ne_zero {f : Field} (h : 0 < f.number) (hf : f.number < 16) : f.key ≠ 0 := by
  intro hzero
  have hval := congrArg UInt8.toNat hzero
  rw [toNat_key hf] at hval
  simp at hval
  omega

/-- The bytes of a message determine it, also if zeros follow. -/
theorem encode_unique {k : Nat} {fields : List Field} (h : Declared k fields)
    {m m' : Record fields} {i j : Nat}
    (heq : encode fields m ++ List.replicate i 0 = encode fields m' ++ List.replicate j 0) :
    m = m' := by
  induction fields generalizing k with
  | nil => rfl
  | cons f fields ih =>
    have hzero := key_ne_zero (Nat.zero_lt_of_lt h.1) h.2.1
    have hopens : ∀ (n : Record fields) (i : Nat),
        (encode fields n ++ List.replicate i 0).head? ≠ some f.key := fun n i =>
      (opens_encode h.2.2 n fun k => opens_zeros k i).ne_key h.2.1 hzero
    rw [encode, encode, List.append_assoc, List.append_assoc] at heq
    obtain ⟨hv, hrest⟩ := encodeField_unique (fun _ => hopens m.2 i) (fun _ => hopens m'.2 j) heq
    exact Prod.ext hv (ih h.2.2 hrest)

/-! ## Runs of 255 -/

/-- Four bytes 255. -/
def run : List UInt8 := List.replicate 4 255

theorem run_after_cons {b : UInt8} (hb : b ≠ 255) {r p t : List UInt8}
    (h : b :: r = p ++ (run ++ t)) : ∃ q, p = b :: q ∧ r = q ++ (run ++ t) := by
  cases p with
  | nil => exact absurd (List.cons.inj h).1 hb
  | cons c q =>
    obtain ⟨rfl, hr⟩ := List.cons.inj h
    exact ⟨q, rfl, hr⟩

/-- No run begins in bytes other than 255. -/
theorem run_after {bs : List UInt8} (hbs : ∀ b ∈ bs, b ≠ 255) {r p t : List UInt8}
    (h : bs ++ r = p ++ (run ++ t)) : ∃ q, p = bs ++ q ∧ r = q ++ (run ++ t) := by
  induction bs generalizing p with
  | nil => exact ⟨p, rfl, h⟩
  | cons b bs ih =>
    obtain ⟨q, rfl, hrest⟩ := run_after_cons (hbs b List.mem_cons_self) h
    obtain ⟨q', rfl, hr⟩ := ih (fun c hc => hbs c (.tail _ hc)) hrest
    exact ⟨q', rfl, hr⟩

theorem not_all_255 {v r t : List UInt8} (hv : IsVarint v) {n : Nat} (hn : v.length ≤ n)
    (h : v ++ r = List.replicate n 255 ++ t) : False := by
  induction hv generalizing n with
  | @last b hb =>
    cases n with
    | zero => simp at hn
    | succ n =>
      have hhead : b = 255 := (List.cons.inj h).1
      subst hhead
      exact absurd hb (by decide)
  | @more b v _ _ _ ih =>
    cases n with
    | zero => simp at hn
    | succ n => exact ih (Nat.le_of_succ_le_succ hn) (List.cons.inj h).2

/-- No run begins in a varint of at most four bytes. -/
theorem run_after_varint {v r p t : List UInt8} (hv : IsVarint v) (hlen : v.length ≤ 4)
    (h : v ++ r = p ++ (run ++ t)) : ∃ q, p = v ++ q ∧ r = q ++ (run ++ t) := by
  induction hv generalizing p with
  | @last b hb =>
    refine run_after_cons ?_ h
    rintro rfl
    exact absurd hb (by decide)
  | @more b v hb hv hne ih =>
    cases p with
    | nil => exact (not_all_255 (.more hb hv hne) hlen h).elim
    | cons c q =>
      obtain ⟨rfl, hrest⟩ := List.cons.inj h
      obtain ⟨q', rfl, hr⟩ := ih (Nat.le_of_succ_le hlen) hrest
      exact ⟨q', rfl, hr⟩

/-- A run in a varint leaves it a byte to end with. -/
theorem run_in_varint {v r p t : List UInt8} (hv : IsVarint v) (h : v ++ r = p ++ (run ++ t)) :
    (∃ q, p = v ++ q ∧ r = q ++ (run ++ t)) ∨
    ∃ w, v = p ++ (run ++ w) ∧ IsVarint w ∧ w ++ r = t ∧ ∀ b ∈ p, 128 ≤ b.toNat := by
  induction hv generalizing p with
  | @last b hb =>
    refine .inl (run_after_cons ?_ h)
    rintro rfl
    exact absurd hb (by decide)
  | @more b v hb hv hne ih =>
    cases p with
    | nil =>
      have hrun : ∀ b ∈ run, 128 ≤ b.toNat := fun b hb => by
        rw [List.eq_of_mem_replicate hb]
        decide
      obtain ⟨w, hw, hwv, hwr, -⟩ := (IsVarint.more hb hv hne).split hrun h
      exact .inr ⟨w, hw, hwv, hwr, fun _ hb => by cases hb⟩
    | cons c q =>
      obtain ⟨rfl, hrest⟩ := List.cons.inj h
      rcases ih hrest with ⟨q', rfl, hr⟩ | ⟨w, hw, hwv, hwr, hq⟩
      · exact .inl ⟨q', rfl, hr⟩
      · refine .inr ⟨w, by rw [hw]; rfl, hwv, hwr, fun d hd => ?_⟩
        rcases List.mem_cons.mp hd with rfl | hd
        · exact hb
        · exact hq d hd

theorem key_ne_255 {f : Field} (h : f.number < 16) : f.key ≠ 255 := by
  intro hkey
  have hval := congrArg UInt8.toNat hkey
  rw [toNat_key h] at hval
  simp at hval
  split at hval <;> omega

theorem body_text {kind : FieldKind} (hkind : kind.isText = true) {v : kind.Value}
    {b : List UInt8} (h : body kind v = some b) :
    ∃ bs : List UInt8, b = delimited bs ∧ bs.length < 2 ^ 28 ∧ ∀ c ∈ bs, c ≠ 255 := by
  cases kind with
  | string =>
    simp only [body, stringBody] at h
    split at h <;> cases h
    exact ⟨_, rfl, v.2, fun c hc => utf8_ne_255 hc⟩
  | optionalString =>
    obtain ⟨s, rfl, rfl⟩ := Option.map_eq_some_iff.mp h
    exact ⟨_, rfl, s.2, fun c hc => utf8_ne_255 hc⟩
  | uint64 => cases hkind
  | optionalUint32 => cases hkind

theorem body_integer {kind : FieldKind} (hkind : kind.isText = false) {v : kind.Value}
    {b : List UInt8} (h : body kind v = some b) : IsVarint b := by
  cases kind with
  | string => cases hkind
  | optionalString => cases hkind
  | uint64 =>
    simp only [body, uint64Body] at h
    split at h <;> cases h
    exact isVarint_varint (UInt64.toNat_lt v)
  | optionalUint32 =>
    obtain ⟨n, rfl, rfl⟩ := Option.map_eq_some_iff.mp h
    exact isVarint_varint (Nat.lt_trans n.toNat_lt (by decide))

theorem length_varint_le {n : Nat} (h : n < 2 ^ 28) : (varint n).length ≤ 4 :=
  length_encodeVarint_le (k := 3) h

/-- No run begins in a text field. -/
theorem run_after_text {f : Field} (hf : f.number < 16) (hkind : f.kind.isText = true)
    {v : f.kind.Value} {r p t : List UInt8} (h : encodeField f v ++ r = p ++ (run ++ t)) :
    ∃ q, p = encodeField f v ++ q ∧ r = q ++ (run ++ t) := by
  cases hb : body f.kind v with
  | none =>
    rw [encodeField_none hb] at h ⊢
    exact ⟨p, rfl, h⟩
  | some b =>
    obtain ⟨bs, rfl, hlen, h255⟩ := body_text hkind hb
    rw [encodeField_some hb, List.cons_append] at h
    obtain ⟨q, rfl, hkey⟩ := run_after_cons (key_ne_255 hf) h
    rw [delimited, List.append_assoc] at hkey
    obtain ⟨q, rfl, hlength⟩ :=
      run_after_varint (isVarint_varint (by omega)) (length_varint_le hlen) hkey
    obtain ⟨q, rfl, hrest⟩ := run_after h255 hlength
    exact ⟨q, by rw [encodeField_some hb, delimited]; simp, hrest⟩

/-- There is no run in text fields and zeros. -/
theorem no_run_in_texts {k : Nat} {fields : List Field} (hdeclared : Declared k fields)
    (htexts : ∀ f ∈ fields, f.kind.isText = true) {m : Record fields} {i : Nat}
    {p t : List UInt8} (h : encode fields m ++ List.replicate i 0 = p ++ (run ++ t)) : False := by
  induction fields generalizing k p with
  | nil =>
    have hmem : (255 : UInt8) ∈ List.replicate i 0 := by
      rw [show List.replicate i 0 = p ++ (run ++ t) from h]
      simp [run]
    exact absurd (List.eq_of_mem_replicate hmem) (by decide)
  | cons f fields ih =>
    rw [encode, List.append_assoc] at h
    obtain ⟨q, -, hrest⟩ := run_after_text hdeclared.2.1 (htexts f List.mem_cons_self) h
    exact ih hdeclared.2.2 (fun g hg => htexts g (.tail _ hg)) hrest

end Proto
