import Mathlib

/- Regular expressions by backtracking.

   A pattern run from a place in a text gives the places it can end at, in the order a
   backtracking matcher tries them: the first one is the match. `matchAll` collects the
   group of each match from left to right, each search starting where the last match
   ended. The `mem_run_` lemmas say which places a pattern can end at, whatever the
   order. -/
namespace Regex

/-- A place in a text: what is before it, the nearest character first, what is left,
    and the text of the group matched on the way. -/
structure Place where
  before : List Char
  rest : List Char
  group : List Char := []
  deriving DecidableEq, Repr

inductive Pattern where
  | word (text : List Char)
  | oneOf (p : Char → Bool)
  | many (p : Char → Bool)
  | seq (a b : Pattern)
  | alt (a b : Pattern)
  | opt (a : Pattern)
  | boundary (word : Char → Bool)
  | group (a : Pattern)

/-- Between a word character and something else, or an end of the text. -/
def Place.atBoundary (word : Char → Bool) (s : Place) : Bool :=
  s.before.head?.any word != s.rest.head?.any word

/-- The places after as many characters of a class as there are, one fewer, and so on. -/
def runMany (p : Char → Bool) (group : List Char) : List Char → List Char → List Place
  | before, [] => [⟨before, [], group⟩]
  | before, c :: rest =>
    if p c then runMany p group (c :: before) rest ++ [⟨before, c :: rest, group⟩]
    else [⟨before, c :: rest, group⟩]

/-- The places a pattern ends at, in the order they are tried. -/
def run : Pattern → Place → List Place
  | .word text, s =>
    if text.isPrefixOf s.rest then [⟨text.reverse ++ s.before, s.rest.drop text.length, s.group⟩]
    else []
  | .oneOf p, s =>
    match s.rest with
    | [] => []
    | c :: rest => if p c then [⟨c :: s.before, rest, s.group⟩] else []
  | .many p, s => runMany p s.group s.before s.rest
  | .seq a b, s => (run a s).flatMap (run b)
  | .alt a b, s => run a s ++ run b s
  | .opt a, s => run a s ++ [s]
  | .boundary word, s => if s.atBoundary word then [s] else []
  | .group a, s =>
    (run a s).map fun e => { e with group := s.rest.take (s.rest.length - e.rest.length) }

/-- The groups of the matches of a text, from left to right. After an empty match the
    search goes on one character further. -/
def matchAll (a : Pattern) (before rest : List Char) : List (List Char) :=
  match (run a ⟨before, rest, []⟩).head? with
  | some e =>
    if e.rest.length < rest.length then e.group :: matchAll a e.before e.rest
    else e.group ::
      match rest with
      | [] => []
      | c :: tail => matchAll a (c :: before) tail
  | none =>
    match rest with
    | [] => []
    | c :: tail => matchAll a (c :: before) tail
termination_by rest.length
decreasing_by
  · assumption
  · simp
  · simp

section Membership

variable {s e : Place}

theorem mem_run_word {text : List Char} :
    e ∈ run (.word text) s ↔ ∃ r, s.rest = text ++ r ∧ e = ⟨text.reverse ++ s.before, r, s.group⟩ := by
  show e ∈ (if text.isPrefixOf s.rest then _ else []) ↔ _
  constructor
  · intro h
    split at h
    next hpre =>
      obtain ⟨r, hr⟩ := List.isPrefixOf_iff_prefix.mp hpre
      refine ⟨r, hr.symm, ?_⟩
      rw [List.mem_singleton.mp h, ← hr, List.drop_left]
    next => cases h
  · rintro ⟨r, hr, rfl⟩
    have hpre : text.isPrefixOf s.rest = true := List.isPrefixOf_iff_prefix.mpr ⟨r, hr.symm⟩
    rw [if_pos hpre, hr, List.drop_left]
    exact List.mem_singleton_self _

theorem mem_run_oneOf {p : Char → Bool} :
    e ∈ run (.oneOf p) s ↔ ∃ c r, p c = true ∧ s.rest = c :: r ∧ e = ⟨c :: s.before, r, s.group⟩ := by
  show e ∈ (match s.rest with
    | [] => []
    | c :: rest => if p c then [Place.mk (c :: s.before) rest s.group] else []) ↔ _
  cases hrest : s.rest with
  | nil => simp
  | cons c r =>
    constructor
    · intro h
      dsimp only at h
      split at h
      next hp => exact ⟨c, r, hp, rfl, List.mem_singleton.mp h⟩
      next => cases h
    · rintro ⟨c', r', hp, hcons, rfl⟩
      cases hcons
      dsimp only
      rw [if_pos hp]
      exact List.mem_singleton_self _

theorem mem_runMany {p : Char → Bool} {group before rest : List Char} :
    e ∈ runMany p group before rest ↔
      ∃ w r, (∀ c ∈ w, p c = true) ∧ rest = w ++ r ∧ e = ⟨w.reverse ++ before, r, group⟩ := by
  induction rest generalizing before with
  | nil =>
    refine List.mem_singleton.trans ?_
    constructor
    · rintro rfl
      exact ⟨[], [], by simp, rfl, rfl⟩
    · rintro ⟨w, r, -, hsplit, rfl⟩
      obtain ⟨rfl, rfl⟩ := List.append_eq_nil_iff.mp hsplit.symm
      rfl
  | cons c rest ih =>
    show e ∈ (if p c then runMany p group (c :: before) rest ++ [⟨before, c :: rest, group⟩]
      else [⟨before, c :: rest, group⟩]) ↔ _
    constructor
    · intro h
      split at h
      next hp =>
        obtain hmore | hstop := List.mem_append.mp h
        · obtain ⟨w, r, hw, rfl, rfl⟩ := ih.mp hmore
          refine ⟨c :: w, r, ?_, rfl, ?_⟩
          · exact List.forall_mem_cons.mpr ⟨hp, hw⟩
          · simp
        · exact ⟨[], c :: rest, by simp, rfl, List.mem_singleton.mp hstop⟩
      next => exact ⟨[], c :: rest, by simp, rfl, List.mem_singleton.mp h⟩
    · rintro ⟨w, r, hw, hsplit, rfl⟩
      cases w with
      | nil =>
        rw [List.nil_append] at hsplit
        subst hsplit
        split <;> simp
      | cons c' w =>
        cases hsplit
        obtain ⟨hp, hw⟩ := List.forall_mem_cons.mp hw
        rw [if_pos hp, List.mem_append]
        refine .inl (ih.mpr ⟨w, r, hw, rfl, ?_⟩)
        simp

theorem mem_run_many {p : Char → Bool} :
    e ∈ run (.many p) s ↔
      ∃ w r, (∀ c ∈ w, p c = true) ∧ s.rest = w ++ r ∧ e = ⟨w.reverse ++ s.before, r, s.group⟩ :=
  mem_runMany

theorem mem_run_seq {a b : Pattern} : e ∈ run (.seq a b) s ↔ ∃ m ∈ run a s, e ∈ run b m :=
  List.mem_flatMap

theorem mem_run_alt {a b : Pattern} : e ∈ run (.alt a b) s ↔ e ∈ run a s ∨ e ∈ run b s :=
  List.mem_append

theorem mem_run_opt {a : Pattern} : e ∈ run (.opt a) s ↔ e ∈ run a s ∨ e = s := by
  show e ∈ run a s ++ [s] ↔ _
  rw [List.mem_append, List.mem_singleton]

theorem mem_run_boundary {word : Char → Bool} :
    e ∈ run (.boundary word) s ↔ s.atBoundary word = true ∧ e = s := by
  show e ∈ (if s.atBoundary word then [s] else []) ↔ _
  split
  next h => rw [List.mem_singleton, h]; simp
  next h => simp [h]

theorem take_consumed (w r : List Char) : (w ++ r).take ((w ++ r).length - r.length) = w := by
  rw [List.length_append, Nat.add_sub_cancel, List.take_left]

theorem mem_run_group {a : Pattern} :
    e ∈ run (.group a) s ↔ ∃ m ∈ run a s,
      e = { m with group := s.rest.take (s.rest.length - m.rest.length) } := by
  refine List.mem_map.trans ?_
  exact ⟨fun ⟨m, hm, h⟩ => ⟨m, hm, h.symm⟩, fun ⟨m, hm, h⟩ => ⟨m, hm, h.symm⟩⟩

end Membership

/-! ## The matches of a text -/

section Matches

variable {a : Pattern} {before rest : List Char}

theorem matchAll_eq : matchAll a before rest =
    match (run a ⟨before, rest, []⟩).head? with
    | some e =>
      if e.rest.length < rest.length then e.group :: matchAll a e.before e.rest
      else e.group ::
        match rest with
        | [] => []
        | c :: tail => matchAll a (c :: before) tail
    | none =>
      match rest with
      | [] => []
      | c :: tail => matchAll a (c :: before) tail := by
  rw [matchAll.eq_def]

theorem matchAll_match {e : Place} (h : (run a ⟨before, rest, []⟩).head? = some e)
    (hlt : e.rest.length < rest.length) :
    matchAll a before rest = e.group :: matchAll a e.before e.rest := by
  rw [matchAll_eq, h]
  exact if_pos hlt

theorem matchAll_nil (h : run a ⟨before, [], []⟩ = []) : matchAll a before [] = [] := by
  rw [matchAll_eq, h]
  rfl

theorem matchAll_skip {c : Char} (h : run a ⟨before, c :: rest, []⟩ = []) :
    matchAll a before (c :: rest) = matchAll a (c :: before) rest := by
  rw [matchAll_eq, h]
  rfl

end Matches

end Regex
