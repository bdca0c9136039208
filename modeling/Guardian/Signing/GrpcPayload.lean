import Guardian.Lib.Proto
import Guardian.Signing.Messages

/- What a signature over a gRPC request binds (grpc.rs, auth_request_payload.rs).

   The payload word hashes the encoded request, packed eight bytes to a field
   element. The packing alone is not injective: zeros at the end of the last
   chunk are lost, and a chunk whose upper half is all ones is congruent to one
   whose upper half is zero. Zeros after a message change nothing
   (`Proto.encode_unique`). A chunk can wrap around only if four bytes 255 fall
   into an integer, and then the other message would have to go on with zeros:
   `no_wrap` shows that it cannot if the integer is the first or the second
   field. -/
namespace Guardian.Signing
open Bytes Proto

/-! ## Chunks that wrap around -/

theorem wraps_low {b0 b1 b2 b3 c0 c1 c2 c3 : UInt8}
    (h : littleEndian [b0, b1, b2, b3] = littleEndian [c0, c1, c2, c3] + 1) :
    c0 = 255 ∧ b0 = 0 ∨ c0.toNat + 1 = b0.toNat ∧ c1 = b1 ∧ c2 = b2 ∧ c3 = b3 := by
  simp only [littleEndian] at h
  have hb0 := b0.toNat_lt
  have hb1 := b1.toNat_lt
  have hb2 := b2.toNat_lt
  have hc0 := c0.toNat_lt
  have hc1 := c1.toNat_lt
  have hc2 := c2.toNat_lt
  by_cases hmax : c0.toNat = 255
  · exact .inl ⟨UInt8.toNat_inj.mp hmax, UInt8.toNat_inj.mp (show b0.toNat = 0 by omega)⟩
  · refine .inr ⟨by omega, ?_, ?_, ?_⟩ <;> exact UInt8.toNat_inj.mp (by omega)

/-- A varint that has gone on does not end in a zero. -/
theorem zero_not_after {v r u y : List UInt8} (hv : IsVarint v) (hu : ∀ b ∈ u, 128 ≤ b.toNat)
    (hne : u ≠ []) (h : v ++ r = u ++ 0 :: y) : False := by
  obtain ⟨w, -, hw, hrest, hzero⟩ := hv.split hu h
  cases hw with
  | @last b _ => exact hzero hne (by rw [(List.cons.inj hrest).1])
  | @more b _ hb _ _ =>
    rw [(List.cons.inj hrest).1] at hb
    exact absurd hb (by decide)

/-- Nor, if it goes on at `b0`, can it be one less there and then end. -/
theorem varint_not_below {k : Nat} {v r u y : List UInt8} {b0 b1 b2 b3 c0 : UInt8}
    (hv : IsVarint v) (hr : Opens k r) (hu : ∀ b ∈ u ++ [b0, b1, b2, b3], 128 ≤ b.toNat)
    (hc0 : c0.toNat + 1 = b0.toNat) (h : v ++ r = u ++ (c0 :: b1 :: b2 :: b3 :: 0 :: y)) :
    False := by
  have hb0 := hu b0 (by simp)
  have hb1 := hu b1 (by simp)
  by_cases hgo : 128 ≤ c0.toNat
  · refine zero_not_after hv (u := u ++ [c0, b1, b2, b3]) (y := y) ?_ (by simp) (by simpa using h)
    intro b hb
    rcases List.mem_append.mp hb with hb | hb
    · exact hu b (by simp [hb])
    · rcases List.mem_cons.mp hb with rfl | hb
      · exact hgo
      · exact hu b (List.mem_append_right _ (.tail _ hb))
  · -- It ends at `c0`; the next byte would be the key of a field.
    obtain ⟨w, -, hw, hrest, -⟩ := hv.split (fun b hb => hu b (by simp [hb])) h
    cases hw with
    | last _ =>
      have hnext : r = b1 :: b2 :: b3 :: 0 :: y := (List.cons.inj hrest).2
      rw [hnext] at hr
      have hhead := hr.head.1
      omega
    | more hb _ _ =>
      rw [(List.cons.inj hrest).1] at hb
      exact hgo hb

theorem read_key {g : Field} {w : g.kind.Value} {r y : List UInt8} (hr : r.head? ≠ some g.key)
    (h : encodeField g w ++ r = g.key :: y) : ∃ v, body g.kind w = some v ∧ v ++ r = y := by
  cases hb : body g.kind w with
  | none =>
    rw [encodeField_none hb, List.nil_append] at h
    exact absurd (by rw [h]; rfl) hr
  | some v =>
    rw [encodeField_some hb, List.cons_append] at h
    exact ⟨v, rfl, (List.cons.inj h).2⟩

/-- If a text field goes over the end of `p`, with the key and the length in `p`, the other
message's field ends at the same place. -/
theorem same_end {f : Field} (hkind : f.kind.isText = true) {v v' : f.kind.Value}
    {p a r r' : List UInt8} (hp : 8 ≤ p.length) (hfield : encodeField f v = p ++ a)
    (hr' : r'.head? ≠ some f.key) (heq : encodeField f v' ++ r' = p ++ r) :
    ∃ d, d.length = a.length ∧ (∀ b ∈ d, b ≠ 255) ∧ encodeField f v' = p ++ d ∧ d ++ r' = r := by
  cases hb : body f.kind v with
  | none =>
    rw [encodeField_none hb] at hfield
    have hnil := congrArg List.length hfield
    rw [List.length_nil, List.length_append] at hnil
    omega
  | some bs =>
    obtain ⟨bs, rfl, hlen, -⟩ := body_text hkind hb
    rw [encodeField_some hb, delimited] at hfield
    obtain ⟨k, p, rfl⟩ := List.exists_cons_of_ne_nil
      (List.ne_nil_of_length_pos (Nat.lt_of_lt_of_le (by decide) hp))
    obtain ⟨rfl, hrest⟩ := List.cons.inj hfield
    have hheader := length_varint_le hlen
    rw [List.length_cons] at hp
    -- The length ends in `p`.
    rcases List.append_eq_append_iff.mp hrest with ⟨bs0, rfl, rfl⟩ | ⟨c, hc, -⟩
    · obtain ⟨e, hb', he⟩ := read_key hr' heq
      obtain ⟨bs', rfl, hlen', h255⟩ := body_text hkind hb'
      rw [delimited, List.append_assoc, List.append_eq, List.append_assoc] at he
      obtain ⟨hlength, hbytes⟩ := (isVarint_varint (by omega)).append_inj
        (isVarint_varint (by omega)) he
      have hsame := varint_injective (by omega) (by omega) hlength
      rw [List.length_append] at hsame
      have hcut : bs' = bs'.take bs0.length ++ bs'.drop bs0.length :=
        (List.take_append_drop _ _).symm
      rw [hcut, List.append_assoc] at hbytes
      obtain ⟨htake, hdrop⟩ := List.append_inj hbytes (by rw [List.length_take]; omega)
      refine ⟨bs'.drop bs0.length, by rw [List.length_drop]; omega,
        fun b hb => h255 b (List.mem_of_mem_drop hb), ?_, hdrop⟩
      rw [encodeField_some hb', delimited, hlength, hcut, htake]
      simp
    · have hlength := congrArg List.length hc
      rw [List.length_append] at hlength
      omega

/-- A text field, an integer and text fields. -/
structure Declares (f g : Field) (fields : List Field) : Prop where
  text : f.kind.isText = true
  integer : g.kind.isText = false
  texts : ∀ h ∈ fields, h.kind.isText = true
  number_lt : f.number < g.number
  number_lt_16 : g.number < 16
  declared : Declared g.number fields

section NoWrap
variable {f g : Field} {fields : List Field}

theorem Declares.key_ne_zero (h : Declares f g fields) : f.key ≠ 0 := by
  intro hzero
  have hval := congrArg UInt8.toNat hzero
  rw [toNat_key (Nat.lt_trans h.number_lt h.number_lt_16), if_pos h.text] at hval
  simp at hval

/-- Where the run of a chunk that wraps around is: in the integer. -/
theorem run_in_integer (h : Declares f g fields) {v : f.kind.Value} {w : g.kind.Value}
    {m : Record fields} {i : Nat} {p t : List UInt8}
    (heq : encodeField f v ++ (encodeField g w ++ (encode fields m ++ List.replicate i 0)) =
      p ++ (run ++ t)) :
    ∃ q u, p = encodeField f v ++ g.key :: q ∧ body g.kind w = some (q ++ (run ++ u)) ∧ u ≠ [] ∧
      ∀ b ∈ q, 128 ≤ b.toNat := by
  obtain ⟨q, rfl, hrest⟩ :=
    run_after_text (Nat.lt_trans h.number_lt h.number_lt_16) h.text heq
  cases hb : body g.kind w with
  | none =>
    rw [encodeField_none hb, List.nil_append] at hrest
    exact (no_run_in_texts h.declared h.texts hrest).elim
  | some n =>
    rw [encodeField_some hb, List.cons_append] at hrest
    obtain ⟨q, rfl, hinteger⟩ := run_after_cons (key_ne_255 h.number_lt_16) hrest
    rcases run_in_varint (body_integer h.integer hb) hinteger with
      ⟨q', -, htexts⟩ | ⟨u, rfl, hu, -, hq⟩
    · exact (no_run_in_texts h.declared h.texts htexts).elim
    · exact ⟨q, u, rfl, rfl, hu.ne_nil, hq⟩

theorem encode_eq_nil_of_zero {k : Nat} {fields : List Field} (h : Declared k fields)
    {m : Record fields} {r y : List UInt8} (heq : encode fields m ++ r = 0 :: y) :
    encode fields m = [] := by
  induction fields generalizing k with
  | nil => rfl
  | cons f fields ih =>
    rw [encode] at heq ⊢
    cases hb : body f.kind m.1 with
    | none =>
      rw [encodeField_none hb, List.nil_append] at heq ⊢
      exact ih h.2.2 heq
    | some b =>
      rw [encodeField_some hb] at heq
      exact absurd (List.cons.inj heq).1 (Proto.key_ne_zero (Nat.zero_lt_of_lt h.1) h.2.1)

/-- A byte one below a key is not a key. -/
theorem below_key {f : Field} (hf : f.number < 16) {c0 b0 : UInt8} (hkey : b0 = f.key)
    (hc0 : c0 = 255 ∧ b0 = 0 ∨ c0.toNat + 1 = b0.toNat) : ¬ Keylike c0 := by
  rintro ⟨hlt, hmod⟩
  rcases hc0 with ⟨rfl, -⟩ | hc0
  · exact absurd hlt (by decide)
  · rw [hkey, toNat_key hf] at hc0
    split at hc0 <;> omega

/-- The second of two messages, of which the first has an integer with a run. -/
structure Second (f g : Field) (fields : List Field) (v' : f.kind.Value) (w' : g.kind.Value)
    (m' : Record fields) (j : Nat) (x : List UInt8) : Prop where
  declares : Declares f g fields
  bytes : encodeField f v' ++ (encodeField g w' ++ (encode fields m' ++ List.replicate j 0)) = x

section Second
variable {v v' : f.kind.Value} {w' : g.kind.Value} {m' : Record fields} {j : Nat}
  {x y : List UInt8}

theorem Second.opens_after (h : Second f g fields v' w' m' j x) :
    Opens g.number (encode fields m' ++ List.replicate j 0) :=
  opens_encode h.declares.declared m' fun k => opens_zeros k j

theorem Second.opens_integer (h : Second f g fields v' w' m' j x) :
    Opens f.number (encodeField g w' ++ (encode fields m' ++ List.replicate j 0)) :=
  opens_encodeField h.declares.number_lt h.declares.number_lt_16
    (h.opens_after.mono h.declares.number_lt.le)

theorem Second.number_lt_16 (h : Second f g fields v' w' m' j x) : f.number < 16 :=
  Nat.lt_trans h.declares.number_lt h.declares.number_lt_16

theorem Second.not_key (h : Second f g fields v' w' m' j x) :
    (encodeField g w' ++ (encode fields m' ++ List.replicate j 0)).head? ≠ some f.key :=
  h.opens_integer.ne_key h.number_lt_16 h.declares.key_ne_zero

/-- What follows the integer's key. -/
theorem Second.integer_bytes (h : Second f g fields v' w' m' j x)
    (heq : encodeField g w' ++ (encode fields m' ++ List.replicate j 0) = g.key :: y) :
    ∃ n, body g.kind w' = some n ∧ IsVarint n ∧ n ++ (encode fields m' ++ List.replicate j 0) = y := by
  have hzero := Proto.key_ne_zero (Nat.zero_lt_of_lt h.declares.number_lt) h.declares.number_lt_16
  obtain ⟨n, hn, hy⟩ := read_key (h.opens_after.ne_key h.declares.number_lt_16 hzero) heq
  exact ⟨n, hn, body_integer h.declares.integer hn, hy⟩

/-- After the same text field comes the rest. -/
theorem Second.rest_eq (h : Second f g fields v' w' m' j (encodeField f v ++ y))
    (hy : y.head? ≠ some f.key) :
    encodeField g w' ++ (encode fields m' ++ List.replicate j 0) = y :=
  (encodeField_unique (fun _ => h.not_key) (fun _ => hy) h.bytes).2

end Second

section Cases
variable {v v' : f.kind.Value} {w w' : g.kind.Value} {m m' : Record fields} {i j : Nat}
  {p t t' a q u : List UInt8} {b0 b1 b2 b3 c0 c1 c2 c3 : UInt8}

/-- The chunk begins in the integer. -/
theorem no_wrap_in_integer
    (h : Second f g fields v' w' m' j
      (encodeField f v ++ g.key :: (a ++ (c0 :: c1 :: c2 :: c3 :: 0 :: t'))))
    (hq : ∀ b ∈ a ++ [b0, b1, b2, b3], 128 ≤ b.toNat)
    (hlow : c0 = 255 ∧ b0 = 0 ∨ c0.toNat + 1 = b0.toNat ∧ c1 = b1 ∧ c2 = b2 ∧ c3 = b3) : False := by
  have hgkey : g.key ≠ f.key := by
    intro e
    have hval := congrArg UInt8.toNat e
    rw [toNat_key h.declares.number_lt_16, toNat_key h.number_lt_16, h.declares.text,
      h.declares.integer] at hval
    have hlt := h.declares.number_lt
    simp at hval
    omega
  have hrest := h.rest_eq (fun e => hgkey (Option.some.inj e))
  obtain ⟨n, -, hn, hbytes⟩ := h.integer_bytes hrest
  have hb0 := hq b0 (by simp)
  rcases hlow with ⟨-, rfl⟩ | ⟨hc0, rfl, rfl, rfl⟩
  · exact absurd hb0 (by decide)
  · exact varint_not_below hn h.opens_after hq hc0 hbytes

/-- The chunk begins with the key of the integer. -/
theorem no_wrap_at_key
    (h : Second f g fields v' w' m' j (encodeField f v ++ c0 :: t')) (hkey : b0 = g.key)
    (hlow : c0 = 255 ∧ b0 = 0 ∨ c0.toNat + 1 = b0.toNat) : False := by
  have hnot := below_key h.declares.number_lt_16 hkey hlow
  have hne : (c0 :: t').head? ≠ some f.key := by
    intro e
    obtain rfl := Option.some.inj e
    exact hnot (keylike_key h.number_lt_16)
  have hrest := h.rest_eq hne
  have hopens := h.opens_integer
  rw [hrest] at hopens
  exact hnot hopens.head

/-- The chunk begins with the message. -/
theorem no_wrap_at_start (h : Second f g fields v' w' m' j (c0 :: t')) (hkey : b0 = f.key)
    (hlow : c0 = 255 ∧ b0 = 0 ∨ c0.toNat + 1 = b0.toNat) : False := by
  have hnot := below_key h.number_lt_16 hkey hlow
  have hbytes := h.bytes
  cases hb : body f.kind v' with
  | none =>
    rw [encodeField_none hb, List.nil_append] at hbytes
    have hopens := h.opens_integer
    rw [hbytes] at hopens
    exact hnot hopens.head
  | some b =>
    rw [encodeField_some hb] at hbytes
    exact hnot ((List.cons.inj hbytes).1 ▸ keylike_key h.number_lt_16)

/-- The chunk begins in the text field. -/
theorem no_wrap_in_text
    (h : Second f g fields v' w' m' j
      (p ++ (c0 :: c1 :: c2 :: c3 :: (List.replicate 4 0 ++ t'))))
    (hfield : encodeField f v = p ++ b0 :: a) (hp : 8 ∣ p.length) (hne : p ≠ [])
    (hchunk : [b1, b2, b3] = a ++ g.key :: q) (hq : ∀ b ∈ q, 128 ≤ b.toNat)
    (hlow : c0 = 255 ∧ b0 = 0 ∨ c0.toNat + 1 = b0.toNat ∧ c1 = b1 ∧ c2 = b2 ∧ c3 = b3)
    (hlong : p.length + 9 ≤ (encodeField f v ++ (encodeField g w ++ encode fields m)).length)
    (hcount : ((encodeField f v ++ (encodeField g w ++ encode fields m)).length + 7) / 8 =
      ((encodeField f v' ++ (encodeField g w' ++ encode fields m')).length + 7) / 8) : False := by
  have hp8 : 8 ≤ p.length := Nat.le_of_dvd (List.length_pos_of_ne_nil hne) hp
  obtain ⟨d, hlen, h255, hfield', hd⟩ := same_end h.declares.text hp8 hfield h.not_key h.bytes
  obtain ⟨d0, d, rfl⟩ := List.exists_cons_of_length_eq_add_one hlen
  obtain ⟨rfl, hd0⟩ := List.cons.inj hd
  -- No text has a byte 255, so the chunks differ in their first byte only.
  obtain ⟨-, rfl, rfl, rfl⟩ := hlow.resolve_left fun e => h255 _ List.mem_cons_self e.1
  rw [List.length_cons, List.length_cons, Nat.add_right_cancel_iff] at hlen
  match a, hchunk, d, hlen with
  | [], hchunk, [], _ =>
    obtain ⟨rfl, hq'⟩ := List.cons.inj hchunk
    obtain ⟨n, -, hn, hbytes⟩ := h.integer_bytes hd0
    exact zero_not_after hn (u := [c2, c3]) (by rw [hq']; exact hq) (by simp) hbytes
  | [_], hchunk, [_], _ =>
    obtain ⟨-, hd1⟩ := List.cons.inj hd0
    obtain ⟨-, hchunk1⟩ := List.cons.inj hchunk
    obtain ⟨rfl, hq'⟩ := List.cons.inj hchunk1
    obtain ⟨n, -, hn, hbytes⟩ := h.integer_bytes hd1
    exact zero_not_after hn (u := [c3]) (by rw [hq']; exact hq) (by simp) hbytes
  | [_, _], hchunk, [_, _], _ =>
    -- The integer would be zero, and the message end there, a chunk too early.
    obtain ⟨-, hd1⟩ := List.cons.inj hd0
    obtain ⟨-, hd2⟩ := List.cons.inj hd1
    obtain ⟨-, hchunk1⟩ := List.cons.inj hchunk
    obtain ⟨-, hchunk2⟩ := List.cons.inj hchunk1
    obtain ⟨rfl, -⟩ := List.cons.inj hchunk2
    obtain ⟨n, hbody, hn, hbytes⟩ := h.integer_bytes hd2
    cases hn with
    | more hb _ _ =>
      rw [(List.cons.inj hbytes).1] at hb
      exact absurd hb (by decide)
    | last _ =>
      have hend := encode_eq_nil_of_zero h.declares.declared (List.cons.inj hbytes).2
      rw [hfield', encodeField_some hbody, hend] at hcount
      simp only [List.length_append, List.length_cons, List.length_nil] at hcount hlong
      omega
  | _ :: _ :: _ :: _, hchunk, _, _ =>
    have hlength := congrArg List.length hchunk
    simp at hlength

end Cases

/-- The first difference of two messages is not a chunk that wraps around. -/
theorem no_wrap (h : Declares f g fields) {v v' : f.kind.Value} {w w' : g.kind.Value}
    {m m' : Record fields} {i j : Nat} {p b c t t' : List UInt8} (hp : 8 ∣ p.length)
    (heq : encodeField f v ++ (encodeField g w ++ (encode fields m ++ List.replicate i 0)) =
      p ++ (b ++ t))
    (heq' : encodeField f v' ++ (encodeField g w' ++ (encode fields m' ++ List.replicate j 0)) =
      p ++ (c ++ t'))
    (hwraps : Wraps b c)
    (hcount : ((encodeField f v ++ (encodeField g w ++ encode fields m)).length + 7) / 8 =
      ((encodeField f v' ++ (encodeField g w' ++ encode fields m')).length + 7) / 8) : False := by
  obtain ⟨b0, b1, b2, b3, c0, c1, c2, c3, rfl, rfl, hvalue⟩ := hwraps
  have hlow := wraps_low hvalue
  have hfirst : c0 = 255 ∧ b0 = 0 ∨ c0.toNat + 1 = b0.toNat := hlow.imp id And.left
  obtain ⟨q, u, hstart, hinteger, hu, hq⟩ := run_in_integer h (p := p ++ [b0, b1, b2, b3]) (t := t)
    (by rw [heq]; simp [run])
  have hlength := congrArg List.length hstart
  simp only [List.length_append, List.length_cons, List.length_nil] at hlength
  -- Where the chunk begins: in the text field, at its end, or after it.
  rcases List.append_eq_append_iff.mp hstart with ⟨a, hfield, hchunk⟩ | ⟨a, rfl, hchunk⟩
  · cases a with
    | nil =>
      rw [List.append_nil] at hfield
      obtain ⟨hkey, -⟩ := List.cons.inj hchunk
      exact no_wrap_at_key (v := v) ⟨h, by rw [heq', hfield]; rfl⟩ hkey hfirst
    | cons x a =>
      obtain ⟨rfl, hchunk'⟩ := List.cons.inj hchunk
      by_cases hne : p = []
      · subst hne
        have hkey : b0 = f.key := by
          cases hb : body f.kind v with
          | none => rw [encodeField_none hb] at hfield; cases hfield
          | some bs =>
            rw [encodeField_some hb] at hfield
            exact (List.cons.inj hfield).1.symm
        exact no_wrap_at_start ⟨h, heq'⟩ hkey hfirst
      · refine no_wrap_in_text (w := w) (m := m) ⟨h, heq'⟩ hfield hp hne hchunk' hq hlow ?_ hcount
        have hrun := List.length_pos_of_ne_nil hu
        rw [encodeField_some hinteger]
        simp only [List.length_append, List.length_cons, run, List.length_replicate]
        omega
  · cases a with
    | nil =>
      obtain ⟨hkey, -⟩ := List.cons.inj hchunk
      exact no_wrap_at_key (v := v) ⟨h, by rw [heq', List.append_nil]; rfl⟩ hkey.symm hfirst
    | cons x a =>
      obtain ⟨rfl, rfl⟩ := List.cons.inj hchunk
      have hsecond : Second f g fields v' w' m' j (encodeField f v ++
          g.key :: (a ++ (c0 :: c1 :: c2 :: c3 :: 0 :: (List.replicate 3 0 ++ t')))) :=
        ⟨h, by rw [heq']; simp⟩
      exact no_wrap_in_integer hsecond hq hlow

end NoWrap

/-! ## Requests -/

/-- The request types of the API that consist of strings and integers, as guardian.proto
declares them. -/
inductive RequestType where
  | pushDelta
  | getDelta
  | getDeltaSince
  | getDeltaHistory
  | getState
  | getCanonicalNonce
  | pushDeltaProposal
  | getDeltaProposals
  | getDeltaProposal
  | abandonDeltaCandidate
  | executeDeltaProposal
  | getDeltaProposalExecution
  | getCurrentExecution
  | getAccountByKeyCommitment
  deriving DecidableEq

def RequestType.fields : RequestType → List Field
  | .pushDelta => [⟨1, .string⟩, ⟨2, .uint64⟩, ⟨3, .string⟩, ⟨4, .string⟩]
  | .getDelta => [⟨1, .string⟩, ⟨2, .uint64⟩]
  | .getDeltaSince => [⟨1, .string⟩, ⟨2, .uint64⟩]
  | .getDeltaHistory => [⟨1, .string⟩, ⟨2, .optionalUint32⟩, ⟨3, .optionalString⟩]
  | .getState => [⟨1, .string⟩]
  | .getCanonicalNonce => [⟨1, .string⟩]
  | .pushDeltaProposal => [⟨1, .string⟩, ⟨2, .uint64⟩, ⟨3, .string⟩]
  | .getDeltaProposals => [⟨1, .string⟩]
  | .getDeltaProposal => [⟨1, .string⟩, ⟨2, .string⟩]
  | .abandonDeltaCandidate => [⟨1, .string⟩, ⟨2, .uint64⟩, ⟨3, .string⟩]
  | .executeDeltaProposal => [⟨1, .string⟩, ⟨2, .string⟩]
  | .getDeltaProposalExecution => [⟨1, .string⟩, ⟨2, .string⟩]
  | .getCurrentExecution => [⟨1, .string⟩]
  | .getAccountByKeyCommitment => [⟨1, .string⟩]

/-- Whether the server asks for a signature as an operation (`authenticated_operation`). -/
def RequestType.operation : RequestType → Option SignedOperation
  | .executeDeltaProposal => some .executeDeltaProposal
  | _ => none

/-- `from_bytes` or `for_operation` of an encoded request. -/
def payloadBytes (operation : Option SignedOperation) (bytes : List UInt8) : List UInt8 :=
  match operation with
  | none => bytes
  | some operation => operation.tag ++ bytes

def payloadWord (hash : List Felt → Word) (operation : Option SignedOperation)
    (bytes : List UInt8) : Word :=
  fromBytes hash (payloadBytes operation bytes)

/-- At most one integer, declared first or second. -/
inductive IntegerEarly : List Field → Prop where
  | none {fields : List Field} : (∀ h ∈ fields, h.kind.isText = true) → IntegerEarly fields
  | first {g : Field} {fields : List Field} : g.kind.isText = false →
      (∀ h ∈ fields, h.kind.isText = true) → IntegerEarly (g :: fields)
  | second {f g : Field} {fields : List Field} : f.kind.isText = true → g.kind.isText = false →
      (∀ h ∈ fields, h.kind.isText = true) → IntegerEarly (f :: g :: fields)

/-- Fields numbered in order below 16, at most one of them an integer, declared first or second,
and none in a request that is signed as an operation. -/
structure Bound (operation : Option SignedOperation) (fields : List Field) : Prop where
  declared : Declared 0 fields
  early : IntegerEarly fields
  texts : operation ≠ none → ∀ h ∈ fields, h.kind.isText = true

/-- The hash does not collide on these sequences, nor give the zero word. -/
structure Sound (hash : List Felt → Word) (sequences : List (List Felt)) : Prop where
  free : CollisionFree hash sequences
  nonzero : ∀ s ∈ sequences, hash s ≠ Word.zero

/-! ## Binding -/

section Binding
variable {hash : List Felt → Word} {fields : List Field}

/-- A chunk that wraps around holds a run. -/
theorem wraps_run {b c : List UInt8} (h : Wraps b c) : ∃ a, b = a ++ run := by
  obtain ⟨b0, b1, b2, b3, -, -, -, -, rfl, -⟩ := h
  exact ⟨[b0, b1, b2, b3], rfl⟩

theorem no_wrap_early (hdeclared : Declared 0 fields) (hearly : IntegerEarly fields)
    {m m' : Record fields} {i j : Nat} {p b c t t' : List UInt8} (hp : 8 ∣ p.length)
    (heq : encode fields m ++ List.replicate i 0 = p ++ (b ++ t))
    (heq' : encode fields m' ++ List.replicate j 0 = p ++ (c ++ t')) (hwraps : Wraps b c)
    (hcount : ((encode fields m).length + 7) / 8 = ((encode fields m').length + 7) / 8) : False := by
  cases hearly with
  | none htexts =>
    obtain ⟨a, rfl⟩ := wraps_run hwraps
    refine no_run_in_texts (p := p ++ a) (t := t) hdeclared htexts ?_ (m := m) (i := i)
    rw [heq]
    simp
  | @first g fields hinteger htexts =>
    -- As if a string before it were left out.
    have hdeclares : Declares ⟨0, .string⟩ g fields :=
      ⟨rfl, hinteger, htexts, hdeclared.1, hdeclared.2.1, hdeclared.2.2⟩
    have hempty : ∀ r, encodeField ⟨0, .string⟩ (⟨"", by decide⟩ : Text) ++ r = r := fun r => rfl
    rw [encode, List.append_assoc] at heq heq'
    exact no_wrap hdeclares hp ((hempty _).trans heq) ((hempty _).trans heq') hwraps hcount
  | second htext hinteger htexts =>
    have hdeclares := Declares.mk htext hinteger htexts hdeclared.2.2.1 hdeclared.2.2.2.1
      hdeclared.2.2.2.2
    simp only [encode, List.append_assoc] at heq heq' hcount
    exact no_wrap hdeclares hp heq heq' hwraps hcount

theorem encode_bound (hdeclared : Declared 0 fields) (hearly : IntegerEarly fields)
    {m m' : Record fields} (h : pack order (encode fields m) = pack order (encode fields m')) :
    m = m' := by
  have hcount := congrArg List.length h
  rw [length_pack, length_pack] at hcount
  rcases packed_padded_or_wraps h with ⟨i, j, hpadded⟩ |
    ⟨p, b, c, t, t', i, j, hp, heq, heq', hwraps | hwraps⟩
  · exact encode_unique hdeclared hpadded
  · exact (no_wrap_early hdeclared hearly hp heq heq' hwraps hcount).elim
  · exact (no_wrap_early hdeclared hearly hp heq' heq hwraps hcount.symm).elim

theorem tag_ne_255 (operation : SignedOperation) : ∀ b ∈ operation.tag, b ≠ 255 := by
  cases operation
  exact fun b hb => utf8_ne_255 hb

/-- A tag and text fields hold no run, so no chunk of them wraps around. -/
theorem tagged_bound (hdeclared : Declared 0 fields) (htexts : ∀ h ∈ fields, h.kind.isText = true)
    (operation : SignedOperation) {m m' : Record fields}
    (h : pack order (operation.tag ++ encode fields m) =
      pack order (operation.tag ++ encode fields m')) : m = m' := by
  have hrun : ∀ {n : Record fields} {i p b c t}, Wraps b c →
      operation.tag ++ encode fields n ++ List.replicate i 0 = p ++ (b ++ t) → False := by
    intro n i p b c t hwraps heq
    obtain ⟨a, rfl⟩ := wraps_run hwraps
    have heq : operation.tag ++ (encode fields n ++ List.replicate i 0) = (p ++ a) ++ (run ++ t) := by
      simpa using heq
    obtain ⟨q, -, hrest⟩ := run_after (tag_ne_255 operation) heq
    exact no_run_in_texts hdeclared htexts hrest
  rcases packed_padded_or_wraps h with ⟨i, j, hpadded⟩ |
    ⟨p, b, c, t, t', i, j, hp, heq, heq', hwraps | hwraps⟩
  · rw [List.append_assoc, List.append_assoc] at hpadded
    exact encode_unique hdeclared (List.append_cancel_left hpadded)
  · exact (hrun hwraps heq).elim
  · exact (hrun hwraps heq').elim

/-- Payloads with the same word are packed alike. -/
theorem pack_eq_of_word_eq {bs bs' : List UInt8}
    (sound : Sound hash [packedElements bs, packedElements bs'])
    (h : fromBytes hash bs = fromBytes hash bs') : pack order bs = pack order bs' := by
  unfold fromBytes at h
  by_cases hbs : bs = []
  · by_cases hbs' : bs' = []
    · rw [hbs, hbs']
    · rw [if_pos hbs, if_neg hbs'] at h
      exact absurd h.symm (sound.nonzero _ (by simp))
  · by_cases hbs' : bs' = []
    · rw [if_neg hbs, if_pos hbs'] at h
      exact absurd h (sound.nonzero _ (by simp))
    · rw [if_neg hbs, if_neg hbs'] at h
      have hsame := sound.free _ (by simp) _ (by simp) h
      rw [← packedElements_val, ← packedElements_val, hsame]

theorem payload_unique {operation : Option SignedOperation} (h : Bound operation fields)
    {r r' : Record fields}
    (sound : Sound hash [packedElements (payloadBytes operation (encode fields r)),
      packedElements (payloadBytes operation (encode fields r'))])
    (heq : payloadWord hash operation (encode fields r) =
      payloadWord hash operation (encode fields r')) : r = r' := by
  have hpack := pack_eq_of_word_eq sound heq
  cases operation with
  | none => exact encode_bound h.declared h.early hpack
  | some operation => exact tagged_bound h.declared (h.texts (by simp)) operation hpack

/-- The first bytes of a tag: no key of a field, and no chunk that wraps around. -/
theorem tag_start (operation : SignedOperation) : ∃ a0 a1 a2 a3 a4 a, operation.tag =
    a0 :: a1 :: a2 :: a3 :: a4 :: a ∧ ¬ Keylike a0 ∧ a4 ≠ 0 ∧ a4 ≠ 255 := by
  cases operation
  exact ⟨_, _, _, _, _, _, rfl, by unfold Keylike; decide, by decide, by decide⟩

theorem tagged_ne_untagged (hdeclared : Declared 0 fields) (operation : SignedOperation)
    {bytes : List UInt8} {r : Record fields}
    (h : pack order (operation.tag ++ bytes) = pack order (encode fields r)) : False := by
  obtain ⟨a0, a1, a2, a3, a4, a, htag, hkey, hzero, h255⟩ := tag_start operation
  have hopens : ∀ j, Opens 0 (encode fields r ++ List.replicate j 0) := fun j =>
    opens_encode hdeclared r fun k => opens_zeros k j
  rw [htag] at h
  rcases packed_padded_or_wraps h with ⟨i, j, hpadded⟩ |
    ⟨p, b, c, t, t', i, j, -, heq, heq', hwraps⟩
  · have hhead := hopens j
    rw [← hpadded] at hhead
    exact hkey hhead.head
  · cases p with
    | nil =>
      rcases hwraps with ⟨_, _, _, _, _, _, _, _, rfl, -, -⟩ | ⟨_, _, _, _, _, _, _, _, -, rfl, -⟩
      · simp only [List.cons_append, List.nil_append, List.replicate_succ, List.cons.injEq] at heq
        exact h255 heq.2.2.2.2.1
      · simp only [List.cons_append, List.nil_append, List.replicate_succ, List.cons.injEq] at heq
        exact hzero heq.2.2.2.2.1
    | cons x p =>
      obtain ⟨rfl, -⟩ := List.cons.inj heq
      have hhead := hopens j
      rw [heq'] at hhead
      exact hkey hhead.head

theorem requestType_bound (type : RequestType) : Bound type.operation type.fields := by
  have hdeclared : ∀ t : RequestType, Declared 0 t.fields := by
    intro t
    cases t <;> simp [RequestType.fields, Declared]
  refine ⟨hdeclared type, ?_, ?_⟩
  · cases type
    case pushDelta | getDelta | getDeltaSince | getDeltaHistory | pushDeltaProposal |
      abandonDeltaCandidate => exact .second rfl rfl (by simp [FieldKind.isText])
    all_goals exact .none (by simp [RequestType.fields, FieldKind.isText])
  · intro hoperation
    cases type
    case executeDeltaProposal => simp [RequestType.fields, FieldKind.isText]
    all_goals exact absurd rfl hoperation

end Binding

/-- A payload word binds the request, for every request type of the API and for every type whose
only integer is declared first or second; and no payload is both tagged and untagged. -/
theorem grpc_signature_binds (hash : List Felt → Word) :
    (∀ type : RequestType, Bound type.operation type.fields) ∧
    (∀ (operation : Option SignedOperation) (fields : List Field), Bound operation fields →
      ∀ r r' : Record fields,
      Sound hash [packedElements (payloadBytes operation (encode fields r)),
        packedElements (payloadBytes operation (encode fields r'))] →
      payloadWord hash operation (encode fields r) = payloadWord hash operation (encode fields r') →
      r = r') ∧
    (∀ (operation : SignedOperation) (fields fields' : List Field), Declared 0 fields' →
      ∀ (r : Record fields) (r' : Record fields'),
      Sound hash [packedElements (payloadBytes (some operation) (encode fields r)),
        packedElements (payloadBytes none (encode fields' r'))] →
      payloadWord hash (some operation) (encode fields r) ≠
        payloadWord hash none (encode fields' r')) := by
  refine ⟨requestType_bound, fun operation fields hbound r r' sound h => ?_,
    fun operation fields fields' hdeclared r r' sound h => ?_⟩
  · exact payload_unique hbound sound h
  · exact tagged_ne_untagged hdeclared operation (pack_eq_of_word_eq sound h)

/-- A request to push a delta. -/
def pushRequest (nonce : UInt64) : Record RequestType.pushDelta.fields :=
  ((⟨"0xabc", by decide⟩ : Text), nonce, (⟨"0x00", by decide⟩ : Text), (⟨"\x00", by decide⟩ : Text),
    ())

theorem grpc_signature_binds_push :
    payloadWord polynomialHash none (encode _ (pushRequest 4294967295)) ≠
      payloadWord polynomialHash none (encode _ (pushRequest 7)) := by
  intro h
  obtain ⟨hbound, hbinds, -⟩ := grpc_signature_binds polynomialHash
  have hsame := hbinds none _ (hbound .pushDelta) (pushRequest 4294967295) (pushRequest 7)
    ⟨by unfold CollisionFree; decide +kernel, by decide +kernel⟩ h
  exact absurd (congrArg (fun r => r.2.1) hsame) (show (4294967295 : UInt64) ≠ 7 by decide)

/-- A type whose integer is its third field, with a string after it. -/
def lateInteger : List Field := [⟨1, .string⟩, ⟨2, .string⟩, ⟨3, .uint64⟩, ⟨4, .string⟩]

/-- The integer, and then a string. -/
def lateLeft : Record lateInteger :=
  ((⟨"aaaaa", by decide⟩ : Text), (⟨"x\"", by decide⟩ : Text), (4294967295 : UInt64),
    (⟨"zzzzzzzzzzzzzzzzz", by decide⟩ : Text), ())

/-- No integer, and one string that holds the bytes of both. -/
def lateRight : Record lateInteger :=
  ((⟨"aaaaa", by decide⟩ : Text), (⟨"x", by decide⟩ : Text), (0 : UInt64),
    (⟨"\x00\x00\x00\x00\x0f\"\x11zzzzzzzzzzzzzzzzz", by decide⟩ : Text), ())

theorem late_integer_collides : lateLeft ≠ lateRight ∧ ∀ hash : List Felt → Word,
    payloadWord hash none (encode lateInteger lateLeft) =
      payloadWord hash none (encode lateInteger lateRight) := by
  constructor
  · intro h
    exact absurd (congrArg (fun r => r.2.2.1) h) (show (4294967295 : UInt64) ≠ 0 by decide)
  · intro hash
    have hpacked : packedElements (encode lateInteger lateLeft) =
        packedElements (encode lateInteger lateRight) := by
      decide +kernel
    unfold payloadWord payloadBytes fromBytes
    rw [if_neg (by decide +kernel), if_neg (by decide +kernel), hpacked]

end Guardian.Signing
