import Mathlib

/- JSON values over any type of numbers, and their compact text. An object is
   the list of its entries, in the order they are written.

   1. `write_injective`: the text determines the value, entries in order,
      whatever the numbers are, as long as their own texts do.
   2. `write_printable`: the text has no control characters.
   3. `Reordered`: equality up to the order of entries, at any depth; sorting
      the entries of every object keeps the value up to it.
   4. `stable_pair`: what a stable sort leaves before what. -/
namespace Json

inductive Value (N : Type) where
  | null
  | bool (b : Bool)
  | num (n : N)
  | str (s : String)
  | arr (items : List (Value N))
  | obj (entries : List (String × Value N))

section
variable {N : Type}

/-- Induction over values: arrays from their items, objects from the values of
their entries. -/
theorem Value.induct {P : Value N → Prop} (null : P .null) (bool : ∀ b, P (.bool b))
    (num : ∀ n, P (.num n)) (str : ∀ s, P (.str s))
    (arr : ∀ items, (∀ v ∈ items, P v) → P (.arr items))
    (obj : ∀ entries, (∀ e ∈ entries, P e.2) → P (.obj entries)) (v : Value N) : P v := by
  refine Value.rec (motive_1 := P) (motive_2 := fun items => ∀ v ∈ items, P v)
    (motive_3 := fun entries => ∀ e ∈ entries, P e.2) (motive_4 := fun e => P e.2)
    null bool num str arr obj ?_ ?_ ?_ ?_ (fun _ _ hv => hv) v
  · exact fun v hv => by cases hv
  · exact fun v items hv hitems => List.forall_mem_cons.mpr ⟨hv, hitems⟩
  · exact fun e he => by cases he
  · exact fun e entries he hentries => List.forall_mem_cons.mpr ⟨he, hentries⟩

/-! ## Text -/

/-- A character that may occur in a number's text. -/
def isNumberChar (c : Char) : Bool := c.isDigit || c ∈ ['+', '-', '.', 'E', 'e']

/-- How numbers are written: each in its own way, in characters of numbers. -/
structure NumberText (N : Type) where
  text : N → List Char
  injective : ∀ {a b}, text a = text b → a = b
  nonempty : ∀ n, text n ≠ []
  chars : ∀ n, ∀ c ∈ text n, isNumberChar c = true

def hexDigit (d : Nat) : Char := "0123456789abcdef".toList.getD d '0'

/-- A character of a string, escaped where it has to be. -/
def escapeChar (c : Char) : List Char :=
  if c = '"' then ['\\', '"']
  else if c = '\\' then ['\\', '\\']
  else if c = '\x08' then ['\\', 'b']
  else if c = '\x0c' then ['\\', 'f']
  else if c = '\n' then ['\\', 'n']
  else if c = '\r' then ['\\', 'r']
  else if c = '\t' then ['\\', 't']
  else if c.toNat < 32 then
    ['\\', 'u', '0', '0', hexDigit (c.toNat / 16), hexDigit (c.toNat % 16)]
  else [c]

def escape (s : List Char) : List Char := s.flatMap escapeChar

def quote (s : String) : List Char := '"' :: escape s.toList ++ ['"']

mutual

def write (F : NumberText N) : Value N → List Char
  | .null => ['n', 'u', 'l', 'l']
  | .bool true => ['t', 'r', 'u', 'e']
  | .bool false => ['f', 'a', 'l', 's', 'e']
  | .num n => F.text n
  | .str s => quote s
  | .arr items => '[' :: writeItems F items
  | .obj entries => '\x7b' :: writeEntries F entries

/-- The items and the closing bracket. -/
def writeItems (F : NumberText N) : List (Value N) → List Char
  | [] => [']']
  | v :: items => write F v ++ writeMoreItems F items

def writeMoreItems (F : NumberText N) : List (Value N) → List Char
  | [] => [']']
  | v :: items => ',' :: (write F v ++ writeMoreItems F items)

/-- The entries and the closing brace. -/
def writeEntries (F : NumberText N) : List (String × Value N) → List Char
  | [] => ['\x7d']
  | (key, v) :: entries => quote key ++ ':' :: (write F v ++ writeMoreEntries F entries)

def writeMoreEntries (F : NumberText N) : List (String × Value N) → List Char
  | [] => ['\x7d']
  | (key, v) :: entries =>
    ',' :: (quote key ++ ':' :: (write F v ++ writeMoreEntries F entries))

end

/-! ## The text determines the value -/

def hexValue (c : Char) : Nat := "0123456789abcdef".toList.idxOf c

/-- The first character of a string's text, and what follows. -/
def unescape : List Char → Option (Char × List Char)
  | '\\' :: '"' :: r => some ('"', r)
  | '\\' :: '\\' :: r => some ('\\', r)
  | '\\' :: 'b' :: r => some ('\x08', r)
  | '\\' :: 'f' :: r => some ('\x0c', r)
  | '\\' :: 'n' :: r => some ('\n', r)
  | '\\' :: 'r' :: r => some ('\r', r)
  | '\\' :: 't' :: r => some ('\t', r)
  | '\\' :: 'u' :: _ :: _ :: a :: b :: r => some (Char.ofNat (16 * hexValue a + hexValue b), r)
  | '"' :: _ => none
  | c :: r => some (c, r)
  | [] => none

theorem hexValue_hexDigit : ∀ d < 16, hexValue (hexDigit d) = d := by decide

theorem unescape_escapeChar (c : Char) (r : List Char) :
    unescape (escapeChar c ++ r) = some (c, r) := by
  unfold escapeChar
  split
  · next h => subst h; rfl
  split
  · next h => subst h; rfl
  split
  · next h => subst h; rfl
  split
  · next h => subst h; rfl
  split
  · next h => subst h; rfl
  split
  · next h => subst h; rfl
  split
  · next h => subst h; rfl
  split
  · next h =>
    have hvalue : 16 * hexValue (hexDigit (c.toNat / 16)) + hexValue (hexDigit (c.toNat % 16)) =
        c.toNat := by
      rw [hexValue_hexDigit _ (by omega), hexValue_hexDigit _ (by omega)]
      omega
    simp only [List.cons_append, List.nil_append, unescape, hvalue, Char.ofNat_toNat]
  · next hquote hslash _ _ _ _ _ _ =>
    simp only [List.cons_append, List.nil_append]
    unfold unescape
    split <;> simp_all

/-- A string ends at its closing quote. -/
theorem escape_unique {s s' r r' : List Char}
    (h : escape s ++ '"' :: r = escape s' ++ '"' :: r') : s = s' ∧ r = r' := by
  induction s generalizing s' with
  | nil =>
    cases s' with
    | nil => exact ⟨rfl, by simpa [escape] using h⟩
    | cons c s' =>
      have hread := unescape_escapeChar c (escape s' ++ '"' :: r')
      rw [← List.append_assoc, show escapeChar c ++ escape s' = escape (c :: s') from rfl, ← h] at hread
      simp [escape, unescape] at hread
  | cons c s ih =>
    have hread := unescape_escapeChar c (escape s ++ '"' :: r)
    rw [← List.append_assoc, show escapeChar c ++ escape s = escape (c :: s) from rfl, h] at hread
    cases s' with
    | nil => simp [escape, unescape] at hread
    | cons c' s' =>
      have hread' := unescape_escapeChar c' (escape s' ++ '"' :: r')
      rw [← List.append_assoc, show escapeChar c' ++ escape s' = escape (c' :: s') from rfl,
        hread, Option.some.injEq, Prod.mk.injEq] at hread'
      obtain ⟨hs, hr⟩ := ih hread'.2
      exact ⟨by rw [hread'.1, hs], hr⟩

theorem quote_unique {s s' : String} {r r' : List Char} (h : quote s ++ r = quote s' ++ r') :
    s = s' ∧ r = r' := by
  have hinner : escape s.toList ++ '"' :: r = escape s'.toList ++ '"' :: r' := by
    simpa [quote] using h
  obtain ⟨hs, hr⟩ := escape_unique hinner
  exact ⟨String.toList_injective hs, hr⟩

/-- What follows a value does not go on with a number. -/
def Closed (r : List Char) : Prop := ∀ c ∈ r.head?, isNumberChar c = false

theorem closed_nil : Closed [] := fun _ h => by cases h

theorem closed_cons {c : Char} (r : List Char) (h : isNumberChar c = false) : Closed (c :: r) :=
  fun _ hc => Option.some.inj hc ▸ h

theorem takeWhile_number {F : NumberText N} (n : N) {r : List Char} (h : Closed r) :
    (F.text n ++ r).takeWhile isNumberChar = F.text n := by
  rw [List.takeWhile_append_of_pos (F.chars n)]
  cases r with
  | nil => simp
  | cons c r => simp [h c rfl]

theorem number_unique {F : NumberText N} {n n' : N} {r r' : List Char} (hr : Closed r)
    (hr' : Closed r') (h : F.text n ++ r = F.text n' ++ r') : n = n' ∧ r = r' := by
  have htext : F.text n = F.text n' := by
    rw [← takeWhile_number n hr, h, takeWhile_number n' hr']
  refine ⟨F.injective htext, ?_⟩
  rw [htext] at h
  exact List.append_cancel_left h

inductive Shape where
  | null
  | bool
  | num
  | str
  | arr
  | obj
  deriving DecidableEq

def Value.shape : Value N → Shape
  | .null => .null
  | .bool _ => .bool
  | .num _ => .num
  | .str _ => .str
  | .arr _ => .arr
  | .obj _ => .obj

/-- What a value that begins with `c` is. -/
def shapeOf (c : Char) : Shape :=
  if c = 'n' then .null
  else if c = 't' ∨ c = 'f' then .bool
  else if c = '"' then .str
  else if c = '[' then .arr
  else if c = '\x7b' then .obj
  else .num

theorem shapeOf_numberChar {c : Char} (h : isNumberChar c = true) : shapeOf c = .num ∧ c ≠ ']' := by
  have hne : ∀ d, isNumberChar d = false → c ≠ d := by
    rintro d hd rfl
    rw [h] at hd
    cases hd
  refine ⟨?_, hne ']' (by decide)⟩
  simp [shapeOf, hne 'n' (by decide), hne 't' (by decide), hne 'f' (by decide),
    hne '"' (by decide), hne '[' (by decide), hne '\x7b' (by decide)]

/-- The first character tells what a value is, and that there is one. -/
theorem write_head (F : NumberText N) (v : Value N) :
    ∃ c r, write F v = c :: r ∧ shapeOf c = v.shape ∧ c ≠ ']' := by
  cases v with
  | null => exact ⟨_, _, by rw [write], rfl, by decide⟩
  | bool b =>
    cases b with
    | false => exact ⟨_, _, by rw [write], rfl, by decide⟩
    | true => exact ⟨_, _, by rw [write], rfl, by decide⟩
  | num n =>
    obtain ⟨c, r, htext⟩ := List.exists_cons_of_ne_nil (F.nonempty n)
    obtain ⟨hshape, hne⟩ := shapeOf_numberChar (F.chars n c (by simp [htext]))
    exact ⟨c, r, by rw [write, htext], hshape, hne⟩
  | str s => exact ⟨_, _, by rw [write]; rfl, rfl, by decide⟩
  | arr items => exact ⟨_, _, by rw [write], rfl, by decide⟩
  | obj entries => exact ⟨_, _, by rw [write], rfl, by decide⟩

theorem shape_unique {F : NumberText N} {v v' : Value N} {r r' : List Char}
    (h : write F v ++ r = write F v' ++ r') : v.shape = v'.shape := by
  obtain ⟨c, t, hwrite, hshape, -⟩ := write_head F v
  obtain ⟨c', t', hwrite', hshape', -⟩ := write_head F v'
  rw [hwrite, hwrite', List.cons_append, List.cons_append, List.cons.injEq] at h
  rw [← hshape, ← hshape', h.1]

/-- The value can be read off the front of a text. -/
def Unique (F : NumberText N) (v : Value N) : Prop :=
  ∀ {v' r r'}, Closed r → Closed r' → write F v ++ r = write F v' ++ r' → v = v' ∧ r = r'

theorem closed_writeMoreItems (F : NumberText N) (items : List (Value N)) (r : List Char) :
    Closed (writeMoreItems F items ++ r) := by
  cases items <;> rw [writeMoreItems] <;> exact closed_cons _ (by decide)

theorem closed_writeMoreEntries (F : NumberText N) (entries : List (String × Value N))
    (r : List Char) : Closed (writeMoreEntries F entries ++ r) := by
  cases entries <;> rw [writeMoreEntries] <;> exact closed_cons _ (by decide)

theorem writeMoreItems_unique {F : NumberText N} {items : List (Value N)}
    (ih : ∀ v ∈ items, Unique F v) {items' : List (Value N)} {r r' : List Char}
    (h : writeMoreItems F items ++ r = writeMoreItems F items' ++ r') : items = items' ∧ r = r' := by
  induction items generalizing items' with
  | nil =>
    cases items' with
    | nil => exact ⟨rfl, by simpa [writeMoreItems] using h⟩
    | cons v' items' => simp [writeMoreItems] at h
  | cons v items ihs =>
    cases items' with
    | nil => simp [writeMoreItems] at h
    | cons v' items' =>
      simp only [writeMoreItems, List.cons_append, List.append_assoc, List.cons.injEq,
        true_and] at h
      obtain ⟨rfl, hrest⟩ := ih v List.mem_cons_self (closed_writeMoreItems F items r)
        (closed_writeMoreItems F items' r') h
      obtain ⟨rfl, hr⟩ := ihs (fun w hw => ih w (.tail _ hw)) hrest
      exact ⟨rfl, hr⟩

theorem writeItems_unique {F : NumberText N} {items : List (Value N)}
    (ih : ∀ v ∈ items, Unique F v) {items' : List (Value N)} {r r' : List Char}
    (h : writeItems F items ++ r = writeItems F items' ++ r') : items = items' ∧ r = r' := by
  cases items with
  | nil =>
    cases items' with
    | nil => exact ⟨rfl, by simpa [writeItems] using h⟩
    | cons v' items' =>
      obtain ⟨c, t, hwrite, -, hne⟩ := write_head F v'
      simp only [writeItems, hwrite, List.cons_append, List.cons.injEq] at h
      exact absurd h.1.symm hne
  | cons v items =>
    cases items' with
    | nil =>
      obtain ⟨c, t, hwrite, -, hne⟩ := write_head F v
      simp only [writeItems, hwrite, List.cons_append, List.cons.injEq] at h
      exact absurd h.1 hne
    | cons v' items' =>
      simp only [writeItems, List.append_assoc] at h
      obtain ⟨rfl, hrest⟩ := ih v List.mem_cons_self (closed_writeMoreItems F items r)
        (closed_writeMoreItems F items' r') h
      obtain ⟨rfl, hr⟩ := writeMoreItems_unique (fun w hw => ih w (.tail _ hw)) hrest
      exact ⟨rfl, hr⟩

/-- An entry, and the rest of its object. -/
theorem entry_unique {F : NumberText N} {e e' : String × Value N} {r r' : List Char}
    (hv : Unique F e.2) (hr : Closed r) (hr' : Closed r')
    (h : quote e.1 ++ ':' :: (write F e.2 ++ r) = quote e'.1 ++ ':' :: (write F e'.2 ++ r')) :
    e = e' ∧ r = r' := by
  obtain ⟨hkey, hvalue⟩ := quote_unique h
  obtain ⟨hvalue, hrest⟩ := hv hr hr' (List.cons.inj hvalue).2
  exact ⟨Prod.ext hkey hvalue, hrest⟩

theorem writeMoreEntries_unique {F : NumberText N} {entries : List (String × Value N)}
    (ih : ∀ e ∈ entries, Unique F e.2) {entries' : List (String × Value N)} {r r' : List Char}
    (h : writeMoreEntries F entries ++ r = writeMoreEntries F entries' ++ r') :
    entries = entries' ∧ r = r' := by
  induction entries generalizing entries' with
  | nil =>
    cases entries' with
    | nil => exact ⟨rfl, by simpa [writeMoreEntries] using h⟩
    | cons e' entries' => simp [writeMoreEntries] at h
  | cons e entries ihs =>
    cases entries' with
    | nil => simp [writeMoreEntries] at h
    | cons e' entries' =>
      simp only [writeMoreEntries, List.cons_append, List.append_assoc, List.cons.injEq,
        true_and] at h
      obtain ⟨rfl, hrest⟩ := entry_unique (ih e List.mem_cons_self)
        (closed_writeMoreEntries F entries r) (closed_writeMoreEntries F entries' r') h
      obtain ⟨rfl, hr⟩ := ihs (fun w hw => ih w (.tail _ hw)) hrest
      exact ⟨rfl, hr⟩

theorem writeEntries_unique {F : NumberText N} {entries : List (String × Value N)}
    (ih : ∀ e ∈ entries, Unique F e.2) {entries' : List (String × Value N)} {r r' : List Char}
    (h : writeEntries F entries ++ r = writeEntries F entries' ++ r') :
    entries = entries' ∧ r = r' := by
  cases entries with
  | nil =>
    cases entries' with
    | nil => exact ⟨rfl, by simpa [writeEntries] using h⟩
    | cons e' entries' => simp [writeEntries, quote] at h
  | cons e entries =>
    cases entries' with
    | nil => simp [writeEntries, quote] at h
    | cons e' entries' =>
      simp only [writeEntries, List.cons_append, List.append_assoc] at h
      obtain ⟨rfl, hrest⟩ := entry_unique (ih e List.mem_cons_self)
        (closed_writeMoreEntries F entries r) (closed_writeMoreEntries F entries' r') h
      obtain ⟨rfl, hr⟩ := writeMoreEntries_unique (fun w hw => ih w (.tail _ hw)) hrest
      exact ⟨rfl, hr⟩

theorem write_unique (F : NumberText N) (v : Value N) : Unique F v := by
  induction v using Value.induct with
  | null =>
    intro v' r r' hr hr' h
    cases v' with
    | null => exact ⟨rfl, List.append_cancel_left h⟩
    | _ => cases shape_unique h
  | bool b =>
    intro v' r r' hr hr' h
    cases v' with
    | bool b' =>
      cases b <;> cases b' <;> simp [write] at h
      · exact ⟨rfl, h⟩
      · exact ⟨rfl, h⟩
    | _ => cases shape_unique h
  | num n =>
    intro v' r r' hr hr' h
    cases v' with
    | num n' =>
      simp only [write] at h
      obtain ⟨rfl, hrest⟩ := number_unique hr hr' h
      exact ⟨rfl, hrest⟩
    | _ => cases shape_unique h
  | str s =>
    intro v' r r' hr hr' h
    cases v' with
    | str s' =>
      simp only [write] at h
      obtain ⟨rfl, hrest⟩ := quote_unique h
      exact ⟨rfl, hrest⟩
    | _ => cases shape_unique h
  | arr items ih =>
    intro v' r r' hr hr' h
    cases v' with
    | arr items' =>
      simp only [write, List.cons_append, List.cons.injEq, true_and] at h
      obtain ⟨rfl, hrest⟩ := writeItems_unique ih h
      exact ⟨rfl, hrest⟩
    | _ => cases shape_unique h
  | obj entries ih =>
    intro v' r r' hr hr' h
    cases v' with
    | obj entries' =>
      simp only [write, List.cons_append, List.cons.injEq, true_and] at h
      obtain ⟨rfl, hrest⟩ := writeEntries_unique ih h
      exact ⟨rfl, hrest⟩
    | _ => cases shape_unique h

/-- Distinct values have distinct texts. -/
theorem write_injective {F : NumberText N} {v v' : Value N} (h : write F v = write F v') :
    v = v' :=
  (write_unique F v closed_nil closed_nil (by rw [h])).1

/-! ## Control characters -/

def Printable (c : Char) : Prop := 32 ≤ c.toNat

theorem printable_of_all {text : List Char} (h : text.all (fun c => decide (32 ≤ c.toNat)) = true) :
    ∀ c ∈ text, Printable c :=
  fun c hc => of_decide_eq_true (p := 32 ≤ c.toNat) (List.all_eq_true.mp h c hc)

theorem printable_numberChar {c : Char} (h : isNumberChar c = true) : Printable c := by
  simp only [isNumberChar, Char.isDigit, Bool.or_eq_true, Bool.and_eq_true, decide_eq_true_eq,
    List.mem_cons, List.not_mem_nil, or_false] at h
  rcases h with ⟨h, -⟩ | rfl | rfl | rfl | rfl | rfl
  · exact Nat.le_trans (by decide) (UInt32.le_iff_toNat_le.mp h)
  all_goals unfold Printable; decide

theorem printable_hexDigit : ∀ d < 16, Printable (hexDigit d) := by
  unfold Printable
  decide

theorem printable_escapes : ∀ e ∈ ['\\', '"', 'b', 'f', 'n', 'r', 't', 'u', '0'], Printable e :=
  printable_of_all (by decide)

theorem printable_escapeChar {c d : Char} (h : d ∈ escapeChar c) : Printable d := by
  unfold escapeChar at h
  repeat' split at h
  all_goals try exact printable_escapes d (by revert h; simp only [List.mem_cons]; tauto)
  · next hlow =>
    simp only [List.mem_cons, List.not_mem_nil, or_false] at h
    rcases h with rfl | rfl | rfl | rfl | rfl | rfl
    all_goals first | exact printable_hexDigit _ (by omega) | exact printable_escapes _ (by simp)
  · next hhigh =>
    obtain rfl := List.mem_singleton.mp h
    exact Nat.le_of_not_lt hhigh

theorem printable_quote {s : String} {c : Char} (h : c ∈ quote s) : Printable c := by
  have hquote : Printable '"' := by unfold Printable; decide
  simp only [quote, List.cons_append, List.mem_cons, List.mem_append, List.not_mem_nil,
    or_false] at h
  rcases h with rfl | h | rfl
  · exact hquote
  · obtain ⟨d, -, hd⟩ := List.mem_flatMap.mp h
    exact printable_escapeChar hd
  · exact hquote

theorem printable_punctuation : ∀ c ∈ ['[', ']', '\x7b', '\x7d', ',', ':'], Printable c :=
  printable_of_all (by decide)

theorem printable_writeMoreItems {F : NumberText N} {items : List (Value N)}
    (ih : ∀ v ∈ items, ∀ c ∈ write F v, Printable c) :
    ∀ c ∈ writeMoreItems F items, Printable c := by
  induction items with
  | nil => intro c hc; exact printable_punctuation c (by rw [writeMoreItems] at hc; simp_all)
  | cons v items ihs =>
    intro c hc
    simp only [writeMoreItems, List.mem_cons, List.mem_append] at hc
    rcases hc with rfl | hc | hc
    · exact printable_punctuation _ (by simp)
    · exact ih v List.mem_cons_self c hc
    · exact ihs (fun w hw => ih w (.tail _ hw)) c hc

theorem printable_writeMoreEntries {F : NumberText N} {entries : List (String × Value N)}
    (ih : ∀ e ∈ entries, ∀ c ∈ write F e.2, Printable c) :
    ∀ c ∈ writeMoreEntries F entries, Printable c := by
  induction entries with
  | nil => intro c hc; exact printable_punctuation c (by rw [writeMoreEntries] at hc; simp_all)
  | cons e entries ihs =>
    intro c hc
    simp only [writeMoreEntries, List.mem_cons, List.mem_append] at hc
    rcases hc with rfl | hc | rfl | hc | hc
    · exact printable_punctuation _ (by simp)
    · exact printable_quote hc
    · exact printable_punctuation _ (by simp)
    · exact ih e List.mem_cons_self c hc
    · exact ihs (fun w hw => ih w (.tail _ hw)) c hc

/-- Control characters are escaped. -/
theorem write_printable (F : NumberText N) (v : Value N) : ∀ c ∈ write F v, Printable c := by
  induction v using Value.induct with
  | null => rw [write]; exact printable_of_all (by decide)
  | bool b => cases b <;> rw [write] <;> exact printable_of_all (by decide)
  | num n => rw [write]; exact fun c hc => printable_numberChar (F.chars n c hc)
  | str s => rw [write]; exact fun c hc => printable_quote hc
  | arr items ih =>
    intro c hc
    rw [write] at hc
    rcases List.mem_cons.mp hc with rfl | hc
    · exact printable_punctuation _ (by simp)
    cases items with
    | nil => exact printable_punctuation c (by rw [writeItems] at hc; simp_all)
    | cons v items =>
      rw [writeItems] at hc
      rcases List.mem_append.mp hc with hc | hc
      · exact ih v List.mem_cons_self c hc
      · exact printable_writeMoreItems (fun w hw => ih w (.tail _ hw)) c hc
  | obj entries ih =>
    intro c hc
    rw [write] at hc
    rcases List.mem_cons.mp hc with rfl | hc
    · exact printable_punctuation _ (by simp)
    cases entries with
    | nil => exact printable_punctuation c (by rw [writeEntries] at hc; simp_all)
    | cons e entries =>
      simp only [writeEntries, List.mem_cons, List.mem_append] at hc
      rcases hc with hc | rfl | hc | hc
      · exact printable_quote hc
      · exact printable_punctuation _ (by simp)
      · exact ih e List.mem_cons_self c hc
      · exact printable_writeMoreEntries (fun w hw => ih w (.tail _ hw)) c hc

/-! ## The order of entries -/

mutual

/-- The value with the entries of every object rearranged. -/
def arrange (f : List (String × Value N) → List (String × Value N)) : Value N → Value N
  | .null => .null
  | .bool b => .bool b
  | .num n => .num n
  | .str s => .str s
  | .arr items => .arr (arrangeItems f items)
  | .obj entries => .obj (f (arrangeEntries f entries))

def arrangeItems (f : List (String × Value N) → List (String × Value N)) :
    List (Value N) → List (Value N)
  | [] => []
  | v :: items => arrange f v :: arrangeItems f items

def arrangeEntries (f : List (String × Value N) → List (String × Value N)) :
    List (String × Value N) → List (String × Value N)
  | [] => []
  | (key, v) :: entries => (key, arrange f v) :: arrangeEntries f entries

end

/-- Equal up to the order of the entries of objects, at any depth. -/
inductive Reordered : Value N → Value N → Prop where
  | refl (v : Value N) : Reordered v v
  | symm {v w : Value N} : Reordered v w → Reordered w v
  | trans {u v w : Value N} : Reordered u v → Reordered v w → Reordered u w
  | perm {entries entries' : List (String × Value N)} :
      entries.Perm entries' → Reordered (.obj entries) (.obj entries')
  | item {v w : Value N} (before after : List (Value N)) :
      Reordered v w → Reordered (.arr (before ++ v :: after)) (.arr (before ++ w :: after))
  | entry {v w : Value N} (before : List (String × Value N)) (key : String)
      (after : List (String × Value N)) : Reordered v w →
      Reordered (.obj (before ++ (key, v) :: after)) (.obj (before ++ (key, w) :: after))

section Arrange
variable {f : List (String × Value N) → List (String × Value N)}

theorem reordered_arrangeItems (items : List (Value N))
    (ih : ∀ v ∈ items, Reordered v (arrange f v)) (before : List (Value N)) :
    Reordered (.arr (before ++ items)) (.arr (before ++ arrangeItems f items)) := by
  induction items generalizing before with
  | nil => rw [arrangeItems]; exact .refl _
  | cons v items ihs =>
    rw [arrangeItems]
    refine .trans (.item before items (ih v List.mem_cons_self)) ?_
    have hrest := ihs (fun w hw => ih w (.tail _ hw)) (before ++ [arrange f v])
    simpa using hrest

theorem reordered_arrangeEntries (entries : List (String × Value N))
    (ih : ∀ e ∈ entries, Reordered e.2 (arrange f e.2)) (before : List (String × Value N)) :
    Reordered (.obj (before ++ entries)) (.obj (before ++ arrangeEntries f entries)) := by
  induction entries generalizing before with
  | nil => rw [arrangeEntries]; exact .refl _
  | cons e entries ihs =>
    rw [arrangeEntries]
    refine .trans (.entry before e.1 entries (ih e List.mem_cons_self)) ?_
    have hrest := ihs (fun w hw => ih w (.tail _ hw)) (before ++ [(e.1, arrange f e.2)])
    simpa using hrest

/-- Rearranging entries changes no more than their order. -/
theorem reordered_arrange (hf : ∀ entries, (f entries).Perm entries) (v : Value N) :
    Reordered v (arrange f v) := by
  induction v using Value.induct with
  | arr items ih =>
    rw [arrange]
    exact reordered_arrangeItems items ih []
  | obj entries ih =>
    rw [arrange]
    exact .trans (reordered_arrangeEntries entries ih []) (.perm (hf _).symm)
  | _ => rw [arrange]; exact .refl _

/-- Values that are arranged alike differ in the order of entries only. -/
theorem reordered_of_arrange_eq (hf : ∀ entries, (f entries).Perm entries) {v w : Value N}
    (h : arrange f v = arrange f w) : Reordered v w :=
  .trans (h ▸ reordered_arrange hf v) (.symm (reordered_arrange hf w))

end Arrange

theorem arrangeItems_eq_map (f : List (String × Value N) → List (String × Value N))
    (items : List (Value N)) : arrangeItems f items = items.map (arrange f) := by
  induction items with
  | nil => rw [arrangeItems, List.map_nil]
  | cons v items ih => rw [arrangeItems, List.map_cons, ih]

theorem arrangeEntries_eq_map (f : List (String × Value N) → List (String × Value N))
    (entries : List (String × Value N)) :
    arrangeEntries f entries = entries.map fun e => (e.1, arrange f e.2) := by
  induction entries with
  | nil => rw [arrangeEntries, List.map_nil]
  | cons e entries ih => rw [arrangeEntries, List.map_cons, ih]

theorem keys_arrangeEntries (f : List (String × Value N) → List (String × Value N))
    (entries : List (String × Value N)) :
    (arrangeEntries f entries).map Prod.fst = entries.map Prod.fst := by
  rw [arrangeEntries_eq_map, List.map_map]
  rfl

/-- No object names one key twice, at any depth. -/
inductive Distinct : Value N → Prop where
  | null : Distinct .null
  | bool (b : Bool) : Distinct (.bool b)
  | num (n : N) : Distinct (.num n)
  | str (s : String) : Distinct (.str s)
  | arr {items : List (Value N)} : (∀ v ∈ items, Distinct v) → Distinct (.arr items)
  | obj {entries : List (String × Value N)} : (entries.map Prod.fst).Nodup →
      (∀ e ∈ entries, Distinct e.2) → Distinct (.obj entries)

end

/-! ## Stable sorting -/

section
variable {α : Type}

theorem pair_sublist_or {l : List α} {a b : α} (hne : a ≠ b) (ha : a ∈ l) (hb : b ∈ l) :
    [a, b].Sublist l ∨ [b, a].Sublist l := by
  induction l with
  | nil => cases ha
  | cons c l ih =>
    rcases List.mem_cons.mp ha with rfl | hal
    · have hbl : b ∈ l := (List.mem_cons.mp hb).resolve_left (Ne.symm hne)
      exact .inl ((List.singleton_sublist.mpr hbl).cons_cons a)
    rcases List.mem_cons.mp hb with rfl | hbl
    · exact .inr ((List.singleton_sublist.mpr hal).cons_cons b)
    · exact (ih hal hbl).imp (.cons c) (.cons c)

theorem pair_sublist_asymm {l : List α} (hl : l.Nodup) {a b : α} (h : [a, b].Sublist l)
    (h' : [b, a].Sublist l) : False := by
  induction l with
  | nil => cases h
  | cons c l ih =>
    obtain ⟨hc, hl⟩ := List.nodup_cons.mp hl
    cases h with
    | cons _ h =>
      cases h' with
      | cons _ h' => exact ih hl h h'
      | cons_cons _ _ => exact hc (h.subset (by simp))
    | cons_cons _ hb =>
      cases h' with
      | cons _ h' => exact hc (h'.subset (by simp))
      | cons_cons _ _ => exact hc (List.singleton_sublist.mp hb)

/-- A stable sort leaves `a` before `b` only if `a` sorts before `b`, and where they sort
alike only if it was before `b` already. -/
theorem stable_pair (r : α → α → Prop) [DecidableRel r] [Std.Total r] [IsTrans α r]
    {l : List α} (hl : l.Nodup) {a b : α} (hsub : [a, b].Sublist (l.insertionSort r)) :
    r a b ∧ (r b a → [a, b].Sublist l) := by
  have hnodup : (l.insertionSort r).Nodup := (List.perm_insertionSort r l).nodup_iff.mpr hl
  refine ⟨List.pairwise_iff_forall_sublist.mp (List.pairwise_insertionSort r l) hsub, fun hba => ?_⟩
  have hne : a ≠ b := List.pairwise_iff_forall_sublist.mp hnodup hsub
  have hmem : ∀ c ∈ [a, b], c ∈ l := fun c hc => (List.mem_insertionSort r).mp (hsub.subset hc)
  refine (pair_sublist_or hne (hmem a (by simp)) (hmem b (by simp))).resolve_right fun hback => ?_
  exact pair_sublist_asymm hnodup hsub (List.pair_sublist_insertionSort hba hback)

end
end Json
