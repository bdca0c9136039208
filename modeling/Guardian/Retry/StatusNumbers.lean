import Guardian.Retry.Classify

/- The status numbers the two classifiers read off a text.

   A status in a text is a marker, `http` or `status`, on a word boundary, and a number
   that follows it (`Hit`). The scan of the Rust side notes exactly the numbers of the
   hits: a match it skips, because it overlaps an earlier one, is on no boundary. The
   regular expression of the TypeScript side notes the same numbers: a hit inside a
   match, which the search does not come back to, is the `status` of `http status`, and
   its number is the one matched. -/
namespace Guardian.Retry

open Regex

/-! ## The number after a marker -/

/-- What `(?:\s+code)?\s*:?\s*(\d{3})\b` reads off a text. -/
structure Tail (space : Char → Bool) (text lead gap colon gap' digits rest : Text) : Prop where
  text_eq : text = lead ++ (gap ++ (colon ++ (gap' ++ (digits ++ rest))))
  lead_eq : lead = [] ∨ ∃ w, w ≠ [] ∧ (∀ c ∈ w, space c = true) ∧ lead = w ++ "code".toList
  gap_all : ∀ c ∈ gap, space c = true
  colon_eq : colon = [] ∨ colon = [':']
  gap_all' : ∀ c ∈ gap', space c = true
  length_eq : digits.length = 3
  digits_all : ∀ c ∈ digits, c.isDigit = true
  boundary : rest.head?.any TypeScript.isWord = false

/-- A text that goes on with a digit after its white space. -/
theorem digits_cons {space : Char → Bool} {text lead gap colon gap' digits rest : Text}
    (h : Tail space text lead gap colon gap' digits rest) :
    ∃ d more, digits ++ rest = d :: more ∧ d.isDigit = true := by
  cases hd : digits with
  | nil =>
    have hlen := h.length_eq
    rw [hd] at hlen
    cases hlen
  | cons d more => exact ⟨d, more ++ rest, rfl, h.digits_all d (by rw [hd]; exact List.mem_cons_self ..)⟩

/-- No word character is white space. -/
theorem not_space_of_word {c : Char} (h : TypeScript.isWord c = true) : TypeScript.isSpace c = false := by
  have hrange : (48 ≤ c.toNat ∧ c.toNat ≤ 57) ∨ (65 ≤ c.toNat ∧ c.toNat ≤ 90) ∨ c.toNat = 95 ∨
      (97 ≤ c.toNat ∧ c.toNat ≤ 122) := by
    simp only [TypeScript.isWord, Char.isAlphanum, Char.isAlpha, Char.isUpper, Char.isLower, Char.isDigit,
      Bool.or_eq_true, Bool.and_eq_true, decide_eq_true_eq, beq_iff_eq, ge_iff_le,
      UInt32.le_iff_toNat_le] at h
    obtain ((h | h) | h) | rfl := h
    · exact .inr (.inl h)
    · exact .inr (.inr (.inr h))
    · exact .inl h
    · exact .inr (.inr (.inl rfl))
  simp only [TypeScript.isSpace, List.mem_cons, List.not_mem_nil, or_false, Bool.or_eq_false_iff,
    decide_eq_false_iff_not, Bool.and_eq_false_iff]
  omega

theorem not_space_of_digit {c : Char} (h : c.isDigit = true) : Rust.isAsciiWhitespace c = false := by
  rw [Rust.isAsciiWhitespace, decide_eq_false_iff_not]
  intro hmem
  simp only [List.mem_cons, List.not_mem_nil, or_false] at hmem
  obtain rfl | rfl | rfl | rfl | rfl := hmem <;> exact absurd h (by decide)

theorem takeWhile_digits {digits rest : Text} (hdigits : ∀ c ∈ digits, c.isDigit = true)
    (hrest : rest.head?.any TypeScript.isWord = false) :
    (digits ++ rest).takeWhile Char.isDigit = digits ∧
      (digits ++ rest).dropWhile Char.isDigit = rest := by
  have hhead : ∀ c ∈ rest.head?, c.isDigit = false := by
    intro c hc
    cases hdigit : c.isDigit with
    | false => rfl
    | true =>
      rw [Option.mem_def.mp hc, Option.any_some, TypeScript.isWord, Char.isAlphanum, hdigit] at hrest
      simp at hrest
  have hrest' : rest.takeWhile Char.isDigit = [] ∧ rest.dropWhile Char.isDigit = rest := by
    cases rest with
    | nil => exact ⟨rfl, rfl⟩
    | cons c more =>
      have hc : ¬ c.isDigit = true := by
        rw [hhead c rfl]
        decide
      exact ⟨List.takeWhile_cons_of_neg hc, List.dropWhile_cons_of_neg hc⟩
  rw [List.takeWhile_append_of_pos hdigits, List.dropWhile_append_of_pos hdigits, hrest'.1, hrest'.2]
  exact ⟨List.append_nil _, rfl⟩

/-- A character of a class is not one of a text without it. -/
theorem ne_of_class {p : Char → Bool} {c d : Char} (hc : p c = true) (hd : p d = false) : c ≠ d := by
  rintro rfl
  rw [hc] at hd
  cases hd

section Tail

variable {text lead gap colon gap' digits rest : Text}

/-- The white space before the number, with or without a colon in it. -/
theorem skipColon_body (h : Tail Rust.isAsciiWhitespace text lead gap colon gap' digits rest) :
    Rust.skipColon ((gap ++ (colon ++ (gap' ++ (digits ++ rest)))).dropWhile Rust.isAsciiWhitespace) =
        digits ++ rest ∧
      ("code".toList.isPrefixOf ((gap ++ (colon ++ (gap' ++ (digits ++ rest)))).dropWhile
        Rust.isAsciiWhitespace)) = false := by
  obtain ⟨d, more, hdigits, hd⟩ := digits_cons h
  have hspace := not_space_of_digit hd
  have hstart : (gap' ++ (digits ++ rest)).dropWhile Rust.isAsciiWhitespace = digits ++ rest := by
    rw [List.dropWhile_append_of_pos h.gap_all', hdigits,
      List.dropWhile_cons_of_neg (by rw [hspace]; decide)]
  rw [List.dropWhile_append_of_pos h.gap_all]
  obtain rfl | rfl := h.colon_eq
  · rw [List.nil_append, hstart, hdigits]
    have hcolon : d ≠ ':' := ne_of_class hd (by decide)
    have hcode : d ≠ 'c' := ne_of_class hd (by decide)
    refine ⟨?_, ?_⟩
    · unfold Rust.skipColon
      split
      next hcons => exact absurd (List.cons.inj hcons).1 hcolon
      next => rfl
    · simp [List.isPrefixOf, Ne.symm hcode]
  · rw [List.singleton_append, List.dropWhile_cons_of_neg (by decide)]
    exact ⟨hstart, rfl⟩

theorem skipCode_tail (h : Tail Rust.isAsciiWhitespace text lead gap colon gap' digits rest) :
    Rust.skipCode text =
      (gap ++ (colon ++ (gap' ++ (digits ++ rest)))).dropWhile Rust.isAsciiWhitespace := by
  obtain ⟨-, hcode⟩ := skipColon_body h
  rw [Rust.skipCode, h.text_eq]
  obtain rfl | ⟨w, hne, hw, rfl⟩ := h.lead_eq
  · rw [List.nil_append, hcode]
    simp only [Bool.false_eq_true, and_false, if_false]
  · have hspaced : ∀ t : Text, (w ++ "code".toList ++ t).dropWhile Rust.isAsciiWhitespace =
        "code".toList ++ t := by
      intro t
      rw [List.append_assoc, List.dropWhile_append_of_pos hw]
      rfl
    have hpos : 0 < w.length := List.length_pos_of_ne_nil hne
    rw [hspaced]
    have hshorter : ∀ t : Text, ("code".toList ++ t).length < (w ++ "code".toList ++ t).length := by
      intro t
      simp only [List.length_append]
      omega
    rw [if_pos ⟨hshorter _, rfl⟩]
    rfl

/-- The number the pattern reads is the one the scan reads. -/
theorem leadingStatus_of_tail (h : Tail Rust.isAsciiWhitespace text lead gap colon gap' digits rest) :
    Rust.leadingStatus text = some (Nat.ofDigitChars 10 digits 0) := by
  obtain ⟨htake, hdrop⟩ := takeWhile_digits h.digits_all h.boundary
  have hboundary : rest.head?.any (fun c => c.isAlpha || c == '_') = false := by
    cases hhead : rest.head? with
    | none => rfl
    | some c =>
      have hword := h.boundary
      rw [hhead, Option.any_some, TypeScript.isWord, Char.isAlphanum] at hword
      rw [Option.any_some]
      cases halpha : c.isAlpha <;> simp_all
  rw [Rust.leadingStatus, skipCode_tail h, (skipColon_body h).1, Rust.threeDigits, htake, hdrop,
    hboundary]
  simp [h.length_eq]

theorem skipColon_split (t : Text) :
    ∃ colon gap', (colon = [] ∨ colon = [':']) ∧ (∀ c ∈ gap', Rust.isAsciiWhitespace c = true) ∧
      t = colon ++ (gap' ++ Rust.skipColon t) := by
  unfold Rust.skipColon
  split
  next r =>
    refine ⟨[':'], r.takeWhile Rust.isAsciiWhitespace, .inr rfl, ?_, ?_⟩
    · exact fun c hc => List.all_eq_true.mp List.all_takeWhile c hc
    · rw [List.takeWhile_append_dropWhile]
      rfl
  next => exact ⟨[], [], .inl rfl, by simp, rfl⟩

theorem skipCode_split (t : Text) :
    ∃ lead gap, (lead = [] ∨ ∃ w, w ≠ [] ∧ (∀ c ∈ w, Rust.isAsciiWhitespace c = true) ∧
        lead = w ++ "code".toList) ∧
      (∀ c ∈ gap, Rust.isAsciiWhitespace c = true) ∧ t = lead ++ (gap ++ Rust.skipCode t) := by
  have hsplit : t.takeWhile Rust.isAsciiWhitespace ++ t.dropWhile Rust.isAsciiWhitespace = t :=
    List.takeWhile_append_dropWhile
  have hall : ∀ u : Text, ∀ c ∈ u.takeWhile Rust.isAsciiWhitespace, Rust.isAsciiWhitespace c = true :=
    fun u c hc => List.all_eq_true.mp List.all_takeWhile c hc
  rw [Rust.skipCode]
  by_cases hcode : (t.dropWhile Rust.isAsciiWhitespace).length < t.length ∧
      "code".toList.isPrefixOf (t.dropWhile Rust.isAsciiWhitespace) = true
  · obtain ⟨hshort, hpre⟩ := hcode
    obtain ⟨u, hu⟩ := List.isPrefixOf_iff_prefix.mp hpre
    refine ⟨t.takeWhile Rust.isAsciiWhitespace ++ "code".toList, u.takeWhile Rust.isAsciiWhitespace,
      .inr ⟨_, ?_, hall t, rfl⟩, hall u, ?_⟩
    · intro hnil
      rw [hnil, List.nil_append] at hsplit
      rw [hsplit] at hshort
      exact Nat.lt_irrefl _ hshort
    · have hdrop : (t.dropWhile Rust.isAsciiWhitespace).drop 4 = u := by
        rw [← hu]
        rfl
      simp only [if_pos (And.intro hshort hpre)]
      rw [hdrop, List.takeWhile_append_dropWhile, List.append_assoc, hu, hsplit]
  · refine ⟨[], t.takeWhile Rust.isAsciiWhitespace, .inl rfl, hall t, ?_⟩
    simp only [if_neg hcode]
    rw [List.nil_append, hsplit]

/-- The number the scan reads is one the pattern reads. -/
theorem tail_of_leadingStatus {n : Nat} (h : Rust.leadingStatus text = some n) :
    ∃ lead gap colon gap' digits rest,
      Tail Rust.isAsciiWhitespace text lead gap colon gap' digits rest ∧
        n = Nat.ofDigitChars 10 digits 0 := by
  obtain ⟨lead, gap, hlead, hgap, htext⟩ := skipCode_split text
  obtain ⟨colon, gap', hcolon, hgap', hbody⟩ := skipColon_split (Rust.skipCode text)
  rw [Rust.leadingStatus] at h
  generalize Rust.skipColon (Rust.skipCode text) = t at h hbody
  have hsplit : t.takeWhile Char.isDigit ++ t.dropWhile Char.isDigit = t :=
    List.takeWhile_append_dropWhile
  rw [Rust.threeDigits] at h
  split at h
  next => cases h
  next hlen =>
    split at h
    next => cases h
    next hword =>
      refine ⟨lead, gap, colon, gap', t.takeWhile Char.isDigit, t.dropWhile Char.isDigit, ?_,
        (Option.some.inj h).symm⟩
      refine ⟨?_, hlead, hgap, hcolon, hgap', Classical.not_not.mp hlen, ?_, ?_⟩
      · rw [hsplit, ← hbody]
        exact htext
      · exact fun c hc => List.all_eq_true.mp List.all_takeWhile c hc
      · cases hhead : (t.dropWhile Char.isDigit).head? with
        | none => rfl
        | some c =>
          have hdigit := List.head?_dropWhile_not Char.isDigit t
          rw [hhead] at hdigit hword
          dsimp only at hdigit
          rw [Option.any_some, Bool.or_eq_true, not_or] at hword
          rw [Option.any_some, TypeScript.isWord, Char.isAlphanum, hdigit]
          simp only [Bool.or_false, Bool.or_eq_false_iff]
          exact ⟨Bool.eq_false_iff.mpr hword.1, Bool.eq_false_iff.mpr hword.2⟩

end Tail

/-- The classes of white space agree on the characters of a text. -/
def SameSpace (text : Text) : Prop :=
  ∀ c ∈ text, TypeScript.isSpace c = Rust.isAsciiWhitespace c

theorem Tail.transfer {space space' : Char → Bool} {text lead gap colon gap' digits rest : Text}
    (h : Tail space text lead gap colon gap' digits rest) (hsame : ∀ c ∈ text, space c = space' c) :
    Tail space' text lead gap colon gap' digits rest := by
  have htext := h.text_eq
  have hpart : ∀ w : Text, w ⊆ text → (∀ c ∈ w, space c = true) → ∀ c ∈ w, space' c = true := by
    intro w hw hall c hc
    rw [← hsame c (hw hc)]
    exact hall c hc
  refine ⟨htext, ?_, hpart gap ?_ h.gap_all, h.colon_eq, hpart gap' ?_ h.gap_all', h.length_eq,
    h.digits_all, h.boundary⟩
  · obtain hnil | ⟨w, hne, hw, hlead⟩ := h.lead_eq
    · exact .inl hnil
    · refine .inr ⟨w, hne, hpart w ?_ hw, hlead⟩
      intro c hc
      simp [htext, hlead, hc]
  · intro c hc
    simp [htext, hc]
  · intro c hc
    simp [htext, hc]

/-! ## The patterns -/

section Patterns

variable {s e : Place}

theorem mem_run_digits :
    e ∈ run (.group (.seq (.oneOf Char.isDigit) (.seq (.oneOf Char.isDigit) (.oneOf Char.isDigit)))) s ↔
      ∃ digits r, digits.length = 3 ∧ (∀ c ∈ digits, c.isDigit = true) ∧ s.rest = digits ++ r ∧
        e = ⟨digits.reverse ++ s.before, r, digits⟩ := by
  simp only [mem_run_group, mem_run_seq, mem_run_oneOf]
  constructor
  · rintro ⟨_, ⟨_, ⟨a, r₁, ha, h₁, rfl⟩, _, ⟨b, r₂, hb, h₂, rfl⟩, c, r₃, hc, h₃, rfl⟩, rfl⟩
    dsimp only at h₂ h₃
    subst h₂ h₃
    refine ⟨[a, b, c], r₃, rfl, ?_, h₁, ?_⟩
    · simp [ha, hb, hc]
    · have htaken := take_consumed [a, b, c] r₃
      rw [h₁]
      exact congrArg (Place.mk _ _) htaken
  · rintro ⟨digits, r, hlen, hall, hrest, rfl⟩
    obtain ⟨a, b, c, rfl⟩ := List.length_eq_three.mp hlen
    have ha := hall a (by simp)
    have hb := hall b (by simp)
    have hc := hall c (by simp)
    refine ⟨_, ⟨_, ⟨a, b :: c :: r, ha, hrest, rfl⟩, _, ⟨b, c :: r, hb, rfl, rfl⟩, c, r, hc, rfl, rfl⟩,
      ?_⟩
    have htaken := take_consumed [a, b, c] r
    rw [hrest]
    exact congrArg (Place.mk _ _) htaken.symm

/-- White space, at least one character of it, and a word. -/
theorem mem_run_spaced {space : Char → Bool} {t : Text} :
    e ∈ run (.seq (.oneOf space) (.seq (.many space) (.word t))) s ↔
      ∃ w r, w ≠ [] ∧ (∀ c ∈ w, space c = true) ∧ s.rest = w ++ (t ++ r) ∧
        e = ⟨t.reverse ++ (w.reverse ++ s.before), r, s.group⟩ := by
  simp only [mem_run_seq, mem_run_oneOf, mem_run_many, mem_run_word]
  constructor
  · rintro ⟨_, ⟨a, r₁, ha, h₁, rfl⟩, _, ⟨w, r₂, hw, h₂, rfl⟩, r, h₃, rfl⟩
    dsimp only at h₂ h₃
    subst h₂ h₃
    refine ⟨a :: w, r, List.cons_ne_nil _ _, List.forall_mem_cons.mpr ⟨ha, hw⟩, h₁, ?_⟩
    simp
  · rintro ⟨w, r, hne, hw, hrest, rfl⟩
    obtain ⟨a, w, rfl⟩ := List.exists_cons_of_ne_nil hne
    obtain ⟨ha, hw⟩ := List.forall_mem_cons.mp hw
    refine ⟨_, ⟨a, _, ha, hrest, rfl⟩, _, ⟨w, _, hw, rfl, rfl⟩, r, rfl, ?_⟩
    simp

/-- The part of the pattern after the marker. -/
theorem tail_of_mem_run (h : e ∈ run TypeScript.tailPattern s) :
    ∃ lead gap colon gap',
      Tail TypeScript.isSpace s.rest lead gap colon gap' e.group e.rest ∧
        e.before = (lead ++ (gap ++ (colon ++ (gap' ++ e.group)))).reverse ++ s.before := by
  rw [TypeScript.tailPattern, mem_run_seq] at h
  obtain ⟨m, hlead, h⟩ := h
  simp only [mem_run_seq, mem_run_many, mem_run_opt, mem_run_word, mem_run_boundary,
    mem_run_digits] at h
  obtain ⟨_, ⟨gap, r₁, hgap, h₁, rfl⟩, m', hcolon, _, ⟨gap', r₂, hgap', h₂, rfl⟩, _,
    ⟨digits, r₃, hlen, hdigits, h₃, rfl⟩, hboundary, rfl⟩ := h
  dsimp only at h₃
  subst h₃
  have hword : r₃.head?.any TypeScript.isWord = false := by
    obtain ⟨a, b, c, rfl⟩ := List.length_eq_three.mp hlen
    have hc : TypeScript.isWord c = true := by
      rw [TypeScript.isWord, Char.isAlphanum, hdigits c (by simp)]
      simp
    simpa [Place.atBoundary, hc] using hboundary
  have hlead' : ∃ lead, (lead = [] ∨ ∃ w, w ≠ [] ∧ (∀ c ∈ w, TypeScript.isSpace c = true) ∧
      lead = w ++ "code".toList) ∧ s.rest = lead ++ m.rest ∧ m.before = lead.reverse ++ s.before := by
    obtain hcode | rfl := mem_run_opt.mp hlead
    · obtain ⟨w, r, hne, hw, hrest, rfl⟩ := mem_run_spaced.mp hcode
      refine ⟨w ++ "code".toList, .inr ⟨w, hne, hw, rfl⟩, ?_, ?_⟩
      · rw [hrest, List.append_assoc]
      · simp
    · exact ⟨[], .inl rfl, rfl, rfl⟩
  have hcolon' : ∃ colon, (colon = [] ∨ colon = [':']) ∧ r₁ = colon ++ m'.rest ∧
      m'.before = colon.reverse ++ (gap.reverse ++ m.before) := by
    obtain ⟨r, hrest, rfl⟩ | rfl := hcolon
    · exact ⟨[':'], .inr rfl, hrest, rfl⟩
    · exact ⟨[], .inl rfl, rfl, rfl⟩
  obtain ⟨lead, hleadEq, hrest, hbefore⟩ := hlead'
  obtain ⟨colon, hcolonEq, hr₁, hbefore'⟩ := hcolon'
  refine ⟨lead, gap, colon, gap', ⟨?_, hleadEq, hgap, hcolonEq, hgap', hlen, hdigits, hword⟩, ?_⟩
  · rw [hrest, h₁, hr₁, h₂]
  · dsimp only
    rw [hbefore', hbefore]
    simp

theorem mem_run_of_tail {lead gap colon gap' digits rest : Text}
    (h : Tail TypeScript.isSpace s.rest lead gap colon gap' digits rest) :
    ∃ e, e ∈ run TypeScript.tailPattern s := by
  obtain ⟨a, b, c, hdigits⟩ := List.length_eq_three.mp h.length_eq
  have hc : TypeScript.isWord c = true := by
    rw [TypeScript.isWord, Char.isAlphanum, h.digits_all c (by simp [hdigits])]
    simp
  have hlead : ∃ m, m ∈ run (.opt (.seq (.oneOf TypeScript.isSpace)
      (.seq (.many TypeScript.isSpace) (.word "code".toList)))) s ∧
        m.rest = gap ++ (colon ++ (gap' ++ (digits ++ rest))) := by
    obtain rfl | ⟨w, hne, hw, rfl⟩ := h.lead_eq
    · exact ⟨s, mem_run_opt.mpr (.inr rfl), h.text_eq⟩
    · have htext := h.text_eq
      rw [List.append_assoc] at htext
      exact ⟨_, mem_run_opt.mpr (.inl (mem_run_spaced.mpr ⟨w, _, hne, hw, htext, rfl⟩)), rfl⟩
  obtain ⟨m, hm, hrest⟩ := hlead
  have hcolon : ∃ m', m' ∈ run (.opt (.word [':'])) ⟨gap.reverse ++ m.before,
      colon ++ (gap' ++ (digits ++ rest)), m.group⟩ ∧ m'.rest = gap' ++ (digits ++ rest) := by
    obtain hnil | hcolon := h.colon_eq
    · exact ⟨_, mem_run_opt.mpr (.inr rfl), by rw [hnil]; rfl⟩
    · exact ⟨_, mem_run_opt.mpr (.inl (mem_run_word.mpr ⟨_, by rw [hcolon], rfl⟩)), rfl⟩
  obtain ⟨m', hm', hrest'⟩ := hcolon
  refine ⟨⟨digits.reverse ++ (gap'.reverse ++ m'.before), rest, digits⟩, ?_⟩
  rw [TypeScript.tailPattern]
  refine mem_run_seq.mpr ⟨m, hm, mem_run_seq.mpr ⟨_, mem_run_many.mpr ⟨gap, _, h.gap_all, hrest, rfl⟩,
    mem_run_seq.mpr ⟨m', hm', mem_run_seq.mpr ⟨_, mem_run_many.mpr ⟨gap', _, h.gap_all', hrest', rfl⟩,
      mem_run_seq.mpr ⟨_, mem_run_digits.mpr ⟨digits, rest, h.length_eq, h.digits_all, rfl, rfl⟩,
        mem_run_boundary.mpr ⟨?_, rfl⟩⟩⟩⟩⟩⟩
  have hboundary := h.boundary
  simp [Place.atBoundary, hdigits, hc, hboundary]

end Patterns

/-! ## Hits -/

def http : Text := "http".toList

def status : Text := "status".toList

theorem http_word : ∀ c ∈ http, TypeScript.isWord c = true := List.all_eq_true.mp rfl

theorem status_word : ∀ c ∈ status, TypeScript.isWord c = true := List.all_eq_true.mp rfl

/-- A marker on a word boundary with a number after it. -/
structure Hit (before rest : Text) (n : Nat) : Prop where
  boundary : before.head?.any TypeScript.isWord = false
  marked : ∃ marker, (marker = http ∨ marker = status) ∧ ∃ after, rest = marker ++ after ∧
    Rust.leadingStatus after = some n

/-- A hit somewhere in the rest of a text. -/
def Found (before rest : Text) (n : Nat) : Prop :=
  ∃ mid tail, rest = mid ++ tail ∧ Hit (mid.reverse ++ before) tail n

/-- What the pattern matches: a marker, or `http` and `status`, and what follows it. -/
structure Matched (before rest : Text) (e : Place) (head t : Text) : Prop where
  boundary : before.head?.any TypeScript.isWord = false
  head_eq : head = http ∨ head = status ∨
    ∃ w, w ≠ [] ∧ (∀ c ∈ w, TypeScript.isSpace c = true) ∧ head = http ++ (w ++ status)
  rest_eq : rest = head ++ (t ++ e.rest)
  before_eq : e.before = t.reverse ++ (head.reverse ++ before)
  number : ∃ lead gap colon gap', t = lead ++ (gap ++ (colon ++ (gap' ++ e.group))) ∧
    Tail TypeScript.isSpace (t ++ e.rest) lead gap colon gap' e.group e.rest

theorem atBoundary_iff {before rest : Text} {group : Text} {c : Char} (hc : TypeScript.isWord c = true) :
    Place.atBoundary TypeScript.isWord ⟨before, c :: rest, group⟩ = true ↔
      before.head?.any TypeScript.isWord = false := by
  simp [Place.atBoundary, hc]

theorem matched_of_mem_run {before rest : Text} {e : Place}
    (h : e ∈ run TypeScript.statusPattern ⟨before, rest, []⟩) : ∃ head t, Matched before rest e head t := by
  rw [TypeScript.statusPattern, mem_run_seq] at h
  obtain ⟨m, hmarker, htail⟩ := h
  obtain ⟨lead, gap, colon, gap', htail, hbefore⟩ := tail_of_mem_run htail
  have hhead : ∃ head, before.head?.any TypeScript.isWord = false ∧ (head = http ∨ head = status ∨
      ∃ w, w ≠ [] ∧ (∀ c ∈ w, TypeScript.isSpace c = true) ∧ head = http ++ (w ++ status)) ∧
        rest = head ++ m.rest ∧ m.before = head.reverse ++ before := by
    rw [TypeScript.markerPattern] at hmarker
    obtain hhttp | hstatus := mem_run_alt.mp hmarker
    · obtain ⟨_, hplace, hword⟩ := mem_run_seq.mp hhttp
      obtain ⟨hboundary, rfl⟩ := mem_run_boundary.mp hplace
      obtain ⟨_, hword, hopt⟩ := mem_run_seq.mp hword
      obtain ⟨r, hrest, rfl⟩ := mem_run_word.mp hword
      dsimp only at hrest
      subst hrest
      rw [show "http".toList ++ r = 'h' :: ("ttp".toList ++ r) from rfl,
        atBoundary_iff (by decide)] at hboundary
      obtain hstatus | rfl := mem_run_opt.mp hopt
      · obtain ⟨w, r', hne, hw, hsplit, rfl⟩ := mem_run_spaced.mp hstatus
        dsimp only at hsplit
        subst hsplit
        refine ⟨http ++ (w ++ status), hboundary, .inr (.inr ⟨w, hne, hw, rfl⟩), ?_, ?_⟩
        · simp [http, status]
        · simp [http, status]
      · exact ⟨http, hboundary, .inl rfl, rfl, rfl⟩
    · obtain ⟨_, hplace, hword⟩ := mem_run_seq.mp hstatus
      obtain ⟨hboundary, rfl⟩ := mem_run_boundary.mp hplace
      obtain ⟨r, hrest, rfl⟩ := mem_run_word.mp hword
      dsimp only at hrest
      subst hrest
      rw [show "status".toList ++ r = 's' :: ("tatus".toList ++ r) from rfl,
        atBoundary_iff (by decide)] at hboundary
      exact ⟨status, hboundary, .inr (.inl rfl), rfl, rfl⟩
  obtain ⟨head, hboundary, hhead, hrest, hmbefore⟩ := hhead
  have htext : m.rest = lead ++ (gap ++ (colon ++ (gap' ++ e.group))) ++ e.rest := by
    rw [htail.text_eq]
    simp
  refine ⟨head, lead ++ (gap ++ (colon ++ (gap' ++ e.group))), hboundary, hhead, ?_, ?_, ?_⟩
  · rw [← htext, hrest]
  · rw [hbefore, hmbefore]
  · refine ⟨lead, gap, colon, gap', rfl, ?_⟩
    rw [← htext]
    exact htail

/-- A hit is a place the pattern matches at. -/
theorem run_ne_nil_of_hit {before rest : Text} {n : Nat} (h : Hit before rest n)
    (hsame : SameSpace rest) : run TypeScript.statusPattern ⟨before, rest, []⟩ ≠ [] := by
  obtain ⟨marker, hmarker, after, rfl, hstatus⟩ := h.marked
  obtain ⟨lead, gap, colon, gap', digits, r, htail, -⟩ := tail_of_leadingStatus hstatus
  have hafter : ∀ c ∈ after, Rust.isAsciiWhitespace c = TypeScript.isSpace c :=
    fun c hc => (hsame c (List.mem_append_right _ hc)).symm
  have hmark : (⟨marker.reverse ++ before, after, []⟩ : Place) ∈
      run TypeScript.markerPattern ⟨before, marker ++ after, []⟩ := by
    rw [TypeScript.markerPattern]
    simp only [mem_run_alt, mem_run_seq, mem_run_boundary, mem_run_word, mem_run_opt]
    obtain rfl | rfl := hmarker
    · refine .inl ⟨_, ⟨(atBoundary_iff (c := 'h') (by decide)).mpr h.boundary, rfl⟩, _, ⟨after, rfl, rfl⟩,
        .inr rfl⟩
    · exact .inr ⟨_, ⟨(atBoundary_iff (c := 's') (by decide)).mpr h.boundary, rfl⟩, after, rfl, rfl⟩
  have htail' := htail.transfer hafter
  obtain ⟨e, he⟩ := mem_run_of_tail (s := ⟨marker.reverse ++ before, after, []⟩) htail'
  have hmem : e ∈ run TypeScript.statusPattern ⟨before, marker ++ after, []⟩ := by
    rw [TypeScript.statusPattern, mem_run_seq]
    exact ⟨_, hmark, he⟩
  exact List.ne_nil_of_mem hmem

/-- A hit starts with the first letter of a marker. -/
theorem Hit.head {before rest : Text} {n : Nat} (h : Hit before rest n) :
    ∃ c r, rest = c :: r ∧ (c = 'h' ∨ c = 's') := by
  obtain ⟨marker, hmarker, after, rfl, -⟩ := h.marked
  obtain rfl | rfl := hmarker
  · exact ⟨'h', _, rfl, .inl rfl⟩
  · exact ⟨'s', _, rfl, .inr rfl⟩

theorem Hit.number_status {before r : Text} {n : Nat} (h : Hit before (status ++ r) n) :
    Rust.leadingStatus r = some n := by
  obtain ⟨marker, hmarker, after, heq, hnumber⟩ := h.marked
  obtain rfl | rfl := hmarker
  · cases heq
  · rw [List.append_cancel_left heq]
    exact hnumber

/-- After word characters there is no word boundary to start at. -/
theorem word_before {before mid : Text} (hne : mid ≠ []) (hword : ∀ c ∈ mid, TypeScript.isWord c = true) :
    (mid.reverse ++ before).head?.any TypeScript.isWord = true := by
  obtain ⟨front, c, rfl⟩ := (List.eq_nil_or_concat' mid).resolve_left hne
  rw [List.reverse_append, List.reverse_singleton, List.singleton_append, List.cons_append,
    List.head?_cons, Option.any_some, hword c (by simp)]

theorem not_hit_after {before mid rest : Text} {n : Nat} (hne : mid ≠ [])
    (hword : ∀ c ∈ mid, TypeScript.isWord c = true) : ¬ Hit (mid.reverse ++ before) rest n := by
  intro h
  have hboundary := h.boundary
  rw [word_before hne hword] at hboundary
  cases hboundary

theorem no_head_of_space {c : Char} (h : TypeScript.isSpace c = true) : ¬ (c = 'h' ∨ c = 's') := by
  rintro (rfl | rfl)
  · exact absurd h (by decide)
  · exact absurd h (by decide)

/-- White space, the word `code`, a colon and digits hold no first letter of a marker. -/
theorem Tail.no_head {text lead gap colon gap' digits rest : Text}
    (h : Tail TypeScript.isSpace text lead gap colon gap' digits rest) :
    ∀ c ∈ lead ++ (gap ++ (colon ++ (gap' ++ digits))), ¬ (c = 'h' ∨ c = 's') := by
  intro c hc
  simp only [List.mem_append] at hc
  obtain hc | hc | hc | hc | hc := hc
  · obtain rfl | ⟨w, -, hw, rfl⟩ := h.lead_eq
    · cases hc
    · obtain hc | hc := List.mem_append.mp hc
      · exact no_head_of_space (hw c hc)
      · rintro (rfl | rfl)
        · exact absurd hc (by decide)
        · exact absurd hc (by decide)
  · exact no_head_of_space (h.gap_all c hc)
  · obtain rfl | rfl := h.colon_eq
    · cases hc
    · rw [List.mem_singleton.mp hc]
      decide
  · exact no_head_of_space (h.gap_all' c hc)
  · rintro (rfl | rfl)
    · exact absurd (h.digits_all _ hc) (by decide)
    · exact absurd (h.digits_all _ hc) (by decide)

section Matched

variable {before rest : Text} {e : Place} {head t : Text}

theorem Matched.no_head (h : Matched before rest e head t) : ∀ c ∈ t, ¬ (c = 'h' ∨ c = 's') := by
  obtain ⟨lead, gap, colon, gap', ht, htail⟩ := h.number
  rw [ht]
  exact htail.no_head

/-- The number of the match is the one the scan reads after the marker. -/
theorem Matched.leadingStatus (h : Matched before rest e head t) (hsame : SameSpace rest) :
    Rust.leadingStatus (t ++ e.rest) = some (Nat.ofDigitChars 10 e.group 0) := by
  obtain ⟨lead, gap, colon, gap', -, htail⟩ := h.number
  apply leadingStatus_of_tail (htail.transfer _)
  intro c hc
  apply hsame
  rw [h.rest_eq]
  exact List.mem_append_right _ hc

/-- No number comes after `http` where `status` does. -/
theorem leadingStatus_status {w r : Text} (hw : ∀ c ∈ w, Rust.isAsciiWhitespace c = true) :
    Rust.leadingStatus (w ++ (status ++ r)) = none := by
  have hdrop : (w ++ (status ++ r)).dropWhile Rust.isAsciiWhitespace = status ++ r := by
    rw [List.dropWhile_append_of_pos hw]
    rfl
  have hcode : Rust.skipCode (w ++ (status ++ r)) = status ++ r := by
    rw [Rust.skipCode, hdrop]
    exact if_neg fun hpre => Bool.noConfusion hpre.2
  rw [Rust.leadingStatus, hcode]
  rfl

/-- A hit where a match starts has the number of the match. -/
theorem Matched.number_at (h : Matched before rest e head t) (hsame : SameSpace rest) {n : Nat}
    (hhit : Hit before rest n) : n = Nat.ofDigitChars 10 e.group 0 := by
  have hnumber := h.leadingStatus hsame
  have hrest := h.rest_eq
  obtain ⟨marker, hmarker, after, hafter, hstatus⟩ := hhit.marked
  have heq : marker ++ after = head ++ (t ++ e.rest) := by rw [← hafter, hrest]
  have hsame' : marker = head → n = Nat.ofDigitChars 10 e.group 0 := by
    rintro rfl
    rw [List.append_cancel_left heq, hnumber] at hstatus
    exact (Option.some.inj hstatus).symm
  obtain rfl | rfl | ⟨w, -, hw, rfl⟩ := h.head_eq
  · obtain rfl | rfl := hmarker
    · exact hsame' rfl
    · cases heq
  · obtain rfl | rfl := hmarker
    · cases heq
    · exact hsame' rfl
  · obtain rfl | rfl := hmarker
    · rw [List.append_assoc, List.append_assoc] at heq
      have hspace : ∀ c ∈ w, Rust.isAsciiWhitespace c = true := by
        intro c hc
        rw [← hsame c (by rw [hrest]; simp [hc])]
        exact hw c hc
      rw [List.append_cancel_left heq, leadingStatus_status hspace] at hstatus
      cases hstatus
    · cases heq

theorem not_hit_of_no_head {u r : Text} {n : Nat} (hne : u ≠ []) (hu : ∀ c ∈ u, ¬ (c = 'h' ∨ c = 's')) :
    ¬ Hit before (u ++ r) n := by
  intro hhit
  obtain ⟨d, u, rfl⟩ := List.exists_cons_of_ne_nil hne
  obtain ⟨c, r', hcons, hc⟩ := hhit.head
  cases hcons
  exact hu d (List.mem_cons_self ..) hc

/-- A hit inside the marker of a match is at the `status` of `http status`. -/
theorem Matched.hit_in_marker (h : Matched before rest e head t) {mid u : Text} {n : Nat}
    (hne : mid ≠ []) (hu : u ≠ []) (hhead : head = mid ++ u)
    (hhit : Hit (mid.reverse ++ before) (u ++ (t ++ e.rest)) n) : u = status := by
  have hwords : ∀ w : Text, (∀ c ∈ w, TypeScript.isWord c = true) → head = w → False := by
    intro w hw heq
    refine not_hit_after hne ?_ hhit
    intro c hc
    apply hw
    rw [← heq, hhead]
    exact List.mem_append_left _ hc
  obtain heq | heq | ⟨w, -, hw, heq⟩ := h.head_eq
  · exact (hwords http http_word heq).elim
  · exact (hwords status status_word heq).elim
  · rw [hhead] at heq
    obtain ⟨v, hv, -⟩ | ⟨v, rfl, hv⟩ := List.append_eq_append_iff.mp heq
    · -- Within `http`.
      refine (not_hit_after hne ?_ hhit).elim
      intro c hc
      apply http_word
      rw [hv]
      exact List.mem_append_left _ hc
    · obtain ⟨v', rfl, hsplit⟩ | ⟨v', hsplit, rfl⟩ := List.append_eq_append_iff.mp hv
      · -- Within `status`, or at its start.
        by_cases hv' : v' = []
        · rw [hsplit, hv', List.nil_append]
        · rw [← List.append_assoc, List.reverse_append, List.append_assoc] at hhit
          refine (not_hit_after hv' ?_ hhit).elim
          intro c hc
          apply status_word
          rw [hsplit]
          exact List.mem_append_left _ hc
      · -- Within the white space, or at its end.
        by_cases hv' : v' = []
        · rw [hv', List.nil_append]
        · rw [List.append_assoc] at hhit
          refine (not_hit_of_no_head hv' ?_ hhit).elim
          intro c hc
          apply no_head_of_space
          apply hw
          rw [hsplit]
          exact List.mem_append_right _ hc

/-- A hit inside a match has the number of the match. -/
theorem Matched.number_inside (h : Matched before rest e head t) (hsame : SameSpace rest)
    {mid tail : Text} {n : Nat} (hne : mid ≠ []) (hshort : mid.length < (head ++ t).length)
    (hrest : rest = mid ++ tail) (hhit : Hit (mid.reverse ++ before) tail n) :
    n = Nat.ofDigitChars 10 e.group 0 := by
  have heq : mid ++ tail = head ++ (t ++ e.rest) := by rw [← hrest, h.rest_eq]
  -- In what follows the marker no letter starts a hit.
  have hlate : ∀ v, mid = head ++ v → False := by
    rintro v rfl
    rw [List.append_assoc] at heq
    have hv := List.append_cancel_left heq
    rw [List.length_append, List.length_append] at hshort
    obtain ⟨v', ht, rfl⟩ | ⟨v', rfl, -⟩ := List.append_eq_append_iff.mp hv
    · have hv' : v' ≠ [] := by
        rintro rfl
        rw [ht, List.append_nil] at hshort
        exact Nat.lt_irrefl _ hshort
      refine not_hit_of_no_head hv' ?_ hhit
      intro c hc
      apply h.no_head
      rw [ht]
      exact List.mem_append_right _ hc
    · rw [List.length_append] at hshort
      omega
  obtain ⟨u, hu, rfl⟩ | ⟨v, hv, -⟩ := List.append_eq_append_iff.mp heq
  · by_cases hnil : u = []
    · rw [hnil, List.append_nil] at hu
      exact (hlate [] (by rw [hu, List.append_nil])).elim
    · have hstatus := h.hit_in_marker hne hnil hu hhit
      rw [hstatus] at hhit
      have hnumber := hhit.number_status
      rw [h.leadingStatus hsame] at hnumber
      exact (Option.some.inj hnumber).symm
  · exact (hlate v hv).elim

/-- A match has a hit with its number. -/
theorem Matched.found (h : Matched before rest e head t) (hsame : SameSpace rest) :
    Found before rest (Nat.ofDigitChars 10 e.group 0) := by
  have hnumber := h.leadingStatus hsame
  have hrest := h.rest_eq
  obtain heq | heq | ⟨w, hne, hw, heq⟩ := h.head_eq
  · exact ⟨[], rest, rfl, h.boundary, http, .inl rfl, _, by rw [hrest, heq], hnumber⟩
  · exact ⟨[], rest, rfl, h.boundary, status, .inr rfl, _, by rw [hrest, heq], hnumber⟩
  · refine ⟨http ++ w, status ++ (t ++ e.rest), ?_, ?_, status, .inr rfl, _, rfl, hnumber⟩
    · rw [hrest, heq]
      simp only [List.append_assoc]
    · obtain ⟨front, c, rfl⟩ := (List.eq_nil_or_concat' w).resolve_left hne
      have hspace := hw c (by simp)
      have hword : TypeScript.isWord c = false := by
        apply Bool.eq_false_iff.mpr
        intro hword
        rw [not_space_of_word hword] at hspace
        cases hspace
      simp [hword]

end Matched

/-! ## The numbers of the regular expression -/

theorem found_cons {before rest : Text} {c : Char} {n : Nat} :
    Found before (c :: rest) n ↔ Hit before (c :: rest) n ∨ Found (c :: before) rest n := by
  constructor
  · rintro ⟨mid, tail, hsplit, hhit⟩
    cases mid with
    | nil =>
      rw [List.nil_append] at hsplit
      rw [hsplit]
      exact .inl hhit
    | cons d mid =>
      cases hsplit
      refine .inr ⟨mid, tail, rfl, ?_⟩
      rw [List.reverse_cons, List.append_assoc] at hhit
      exact hhit
  · rintro (hhit | ⟨mid, tail, rfl, hhit⟩)
    · exact ⟨[], _, rfl, hhit⟩
    · refine ⟨c :: mid, tail, rfl, ?_⟩
      rw [List.reverse_cons, List.append_assoc]
      exact hhit

/-- The numbers of the matches are those of the hits. -/
theorem mem_matchAll {before rest : Text} {n : Nat} (hsame : SameSpace rest) :
    (∃ digits ∈ matchAll TypeScript.statusPattern before rest, n = Nat.ofDigitChars 10 digits 0) ↔
      Found before rest n := by
  -- The search goes on after a match, so the induction is on what is left.
  induction hlen : rest.length using Nat.strongRecOn generalizing before rest with
  | _ len ih =>
  cases hrun : (run TypeScript.statusPattern ⟨before, rest, []⟩).head? with
  | some e =>
    have hmem : e ∈ run TypeScript.statusPattern ⟨before, rest, []⟩ := List.mem_of_head? hrun
    obtain ⟨head, t, h⟩ := matched_of_mem_run hmem
    have hrest := h.rest_eq
    have hpos : 0 < head.length := by
      obtain rfl | rfl | ⟨w, -, -, rfl⟩ := h.head_eq
      · decide
      · decide
      · simp [http]
    have hlt : e.rest.length < rest.length := by
      rw [hrest]
      simp only [List.length_append]
      omega
    have hsame' : SameSpace e.rest := by
      intro c hc
      apply hsame
      rw [hrest]
      simp [hc]
    have ih' : (∃ digits ∈ matchAll TypeScript.statusPattern e.before e.rest,
        n = Nat.ofDigitChars 10 digits 0) ↔ Found e.before e.rest n :=
      ih e.rest.length (hlen ▸ hlt) hsame' rfl
    rw [matchAll_match hrun hlt]
    constructor
    · rintro ⟨digits, hdigits, rfl⟩
      obtain rfl | hdigits := List.mem_cons.mp hdigits
      · exact h.found hsame
      · obtain ⟨mid, tail, hsplit, hhit⟩ := ih'.mp ⟨digits, hdigits, rfl⟩
        refine ⟨head ++ (t ++ mid), tail, ?_, ?_⟩
        · rw [hrest, hsplit]
          simp only [List.append_assoc]
        · rw [h.before_eq] at hhit
          simpa only [List.reverse_append, List.append_assoc] using hhit
    · rintro ⟨mid, tail, hsplit, hhit⟩
      by_cases hshort : mid.length < (head ++ t).length
      · refine ⟨e.group, List.mem_cons_self .., ?_⟩
        by_cases hnil : mid = []
        · subst hnil
          rw [List.nil_append] at hsplit
          rw [← hsplit] at hhit
          exact h.number_at hsame hhit
        · exact h.number_inside hsame hnil hshort hsplit hhit
      · have hpre : head ++ t <+: mid := by
          refine List.prefix_of_prefix_length_le ?_ (List.prefix_append mid tail) (Nat.le_of_not_lt hshort)
          rw [← hsplit, hrest, ← List.append_assoc]
          exact List.prefix_append _ _
        obtain ⟨v, rfl⟩ := hpre
        have htail : e.rest = v ++ tail := by
          rw [hrest, ← List.append_assoc, List.append_assoc (head ++ t)] at hsplit
          exact List.append_cancel_left hsplit
        have hfound : Found e.before e.rest n := by
          refine ⟨v, tail, htail, ?_⟩
          rw [h.before_eq]
          simpa only [List.reverse_append, List.append_assoc] using hhit
        obtain ⟨digits, hdigits, hn⟩ := ih'.mpr hfound
        exact ⟨digits, List.mem_cons_of_mem _ hdigits, hn⟩
  | none =>
    have hrun' := List.head?_eq_none_iff.mp hrun
    have hno : ∀ m, ¬ Hit before rest m := fun m hhit => run_ne_nil_of_hit hhit hsame hrun'
    cases rest with
    | nil =>
      rw [matchAll_nil hrun']
      constructor
      · rintro ⟨_, hmem, -⟩
        cases hmem
      · rintro ⟨mid, tail, hsplit, hhit⟩
        obtain ⟨rfl, rfl⟩ := List.append_eq_nil_iff.mp hsplit.symm
        exact (hno n hhit).elim
    | cons c rest =>
      have hlt : rest.length < len := by
        rw [← hlen, List.length_cons]
        exact Nat.lt_succ_self _
      have hsame' : SameSpace rest := fun d hd => hsame d (List.mem_cons_of_mem _ hd)
      rw [matchAll_skip hrun', ih rest.length hlt hsame' rfl, found_cons]
      exact ⟨.inr, fun h => h.resolve_left (hno n)⟩

/-! ## The numbers of the scan -/

theorem mem_matchIndices {marker before rest : Text} {found : Text × Text}
    (h : found ∈ Rust.matchIndices marker before rest) :
    ∃ mid, rest = mid ++ (marker ++ found.2) ∧ found.1 = mid.reverse ++ before := by
  fun_induction Rust.matchIndices marker before rest with
  | case1 => cases h
  | case2 before c tail hmatch ih =>
    obtain ⟨after, hafter⟩ := List.isPrefixOf_iff_prefix.mp hmatch.1
    have hdrop : (c :: tail).drop marker.length = after := by rw [← hafter, List.drop_left]
    rw [List.unattach_reverse, List.unattach_attach, hdrop] at ih
    rw [hdrop] at h
    obtain rfl | h := List.mem_cons.mp h
    · exact ⟨[], hafter.symm, rfl⟩
    · obtain ⟨mid, hmid, hbefore⟩ := ih h
      refine ⟨marker ++ mid, ?_, ?_⟩
      · rw [← hafter, hmid, List.append_assoc]
      · rw [hbefore, List.reverse_append, List.append_assoc]
  | case3 before c tail hmatch ih =>
    obtain ⟨mid, hmid, hbefore⟩ := ih h
    refine ⟨c :: mid, ?_, ?_⟩
    · rw [hmid, List.cons_append]
    · rw [hbefore, List.reverse_cons, List.append_assoc]
      rfl

/-- The scan comes by every match on a boundary: it skips none for an earlier match,
    whose last character would be before it. -/
theorem matchIndices_complete {marker before rest mid after : Text} (hne : marker ≠ [])
    (hword : ∀ c ∈ marker, TypeScript.isWord c = true) (hrest : rest = mid ++ (marker ++ after))
    (hboundary : (mid.reverse ++ before).head?.any TypeScript.isWord = false) :
    (mid.reverse ++ before, after) ∈ Rust.matchIndices marker before rest := by
  fun_induction Rust.matchIndices marker before rest generalizing mid with
  | case1 =>
    have hnil := (List.append_eq_nil_iff.mp hrest.symm).2
    exact absurd (List.append_eq_nil_iff.mp hnil).1 hne
  | case2 before c tail hmatch ih =>
    obtain ⟨after', hafter⟩ := List.isPrefixOf_iff_prefix.mp hmatch.1
    have hdrop : (c :: tail).drop marker.length = after' := by rw [← hafter, List.drop_left]
    rw [List.unattach_reverse, List.unattach_attach, hdrop] at ih
    rw [hdrop]
    rw [← hafter] at hrest
    cases mid with
    | nil =>
      rw [List.nil_append] at hrest
      rw [List.append_cancel_left hrest]
      exact List.mem_cons_self ..
    | cons d mid =>
      obtain ⟨v, hv, hafter'⟩ | ⟨v, hv, -⟩ := List.append_eq_append_iff.mp hrest
      · rw [hv, List.reverse_append, List.append_assoc] at hboundary ⊢
        exact List.mem_cons_of_mem _ (ih hafter' hboundary)
      · -- The earlier match would reach over the boundary.
        have hbefore : ∀ c ∈ d :: mid, TypeScript.isWord c = true := by
          intro c hc
          apply hword
          rw [hv]
          exact List.mem_append_left _ hc
        rw [word_before (List.cons_ne_nil d mid) hbefore] at hboundary
        cases hboundary
  | case3 before c tail hmatch ih =>
    cases mid with
    | nil =>
      refine absurd ⟨?_, hne⟩ hmatch
      exact List.isPrefixOf_iff_prefix.mpr ⟨after, hrest.symm⟩
    | cons d mid =>
      cases hrest
      rw [List.reverse_cons, List.append_assoc] at hboundary ⊢
      exact ih rfl hboundary

/-- The number the scan notes at a match of a marker. -/
def scanned (found : Text × Text) : Option Nat :=
  if found.1.head?.any TypeScript.isWord then none else Rust.leadingStatus found.2

theorem scanned_eq_some {found : Text × Text} {n : Nat} :
    scanned found = some n ↔
      found.1.head?.any TypeScript.isWord = false ∧ Rust.leadingStatus found.2 = some n := by
  unfold scanned
  split
  next h => simp [h]
  next h => simp [h]

/-- The numbers of the scan are those of the hits. -/
theorem mem_scan {message : Text} {n : Nat} :
    (∃ found ∈ Rust.statusMarkers.flatMap fun marker => Rust.matchIndices marker [] message,
        scanned found = some n) ↔ Found [] message n := by
  constructor
  · rintro ⟨found, hfound, hscanned⟩
    obtain ⟨hboundary, hstatus⟩ := scanned_eq_some.mp hscanned
    obtain ⟨marker, hmarker, hfound⟩ := List.mem_flatMap.mp hfound
    obtain ⟨mid, hmessage, hbefore⟩ := mem_matchIndices hfound
    rw [hbefore] at hboundary
    have hmarkers : Rust.statusMarkers = [http ++ (' ' :: status), http, status] := rfl
    rw [hmarkers] at hmarker
    simp only [List.mem_cons, List.not_mem_nil, or_false] at hmarker
    obtain rfl | rfl | rfl := hmarker
    · refine ⟨mid ++ (http ++ [' ']), status ++ found.2, ?_, ?_, status, .inr rfl, _, rfl, hstatus⟩
      · rw [hmessage]
        simp
      · simp [TypeScript.isWord]
    · exact ⟨mid, _, hmessage, hboundary, http, .inl rfl, _, rfl, hstatus⟩
    · exact ⟨mid, _, hmessage, hboundary, status, .inr rfl, _, rfl, hstatus⟩
  · rintro ⟨mid, tail, hmessage, hboundary, marker, hmarker, after, rfl, hstatus⟩
    have hword : marker ≠ [] ∧ ∀ c ∈ marker, TypeScript.isWord c = true := by
      obtain rfl | rfl := hmarker
      · exact ⟨List.cons_ne_nil _ _, http_word⟩
      · exact ⟨List.cons_ne_nil _ _, status_word⟩
    have hmem : marker ∈ Rust.statusMarkers := by
      obtain rfl | rfl := hmarker
      · decide
      · decide
    refine ⟨(mid.reverse ++ [], after), List.mem_flatMap.mpr ⟨marker, hmem, ?_⟩,
      scanned_eq_some.mpr ⟨hboundary, hstatus⟩⟩
    exact matchIndices_complete hword.1 hword.2 hmessage hboundary

end Guardian.Retry
