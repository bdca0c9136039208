import Guardian.Lib.Table
import Mathlib.Data.List.MinMax
import Mathlib.Data.Prod.Lex

/- Agendas: entries of distinct keys, each due at some time, served in the order of
   their due times and then of their keys. Two ways to find the entry to serve are
   in use. A map that is iterated in key order takes the first of the earliest
   entries that are due (`earliest_eq_some_iff`); a query orders the due rows and takes
   the first (`head_inOrder_iff`). Both find the entry `First` describes.

   How long an entry waits is measured by the entries `ahead` of it: their number
   never grows as long as nothing new or put off is due before the entry, and falls
   whenever one of them is served. -/
namespace Agenda

variable {α κ τ : Type} [LinearOrder κ] [LinearOrder τ] {due : α → τ} {key : α → κ}

/-- The order of service. -/
def rank (due : α → τ) (key : α → κ) (a : α) : τ ×ₗ κ := toLex (due a, key a)

theorem rank_le_iff {a b : α} :
    rank due key a ≤ rank due key b ↔ due a < due b ∨ due a = due b ∧ key a ≤ key b :=
  Prod.Lex.toLex_le_toLex

theorem due_le_of_rank_le {a b : α} (h : rank due key a ≤ rank due key b) : due a ≤ due b := by
  obtain hlt | ⟨heq, _⟩ := rank_le_iff.mp h
  · exact hlt.le
  · exact heq.le

/-- The entry to serve at `now`. -/
structure First (due : α → τ) (key : α → κ) (now : τ) (l : List α) (a : α) : Prop where
  mem : a ∈ l
  due_le : due a ≤ now
  least : ∀ b ∈ l, due b ≤ now → rank due key a ≤ rank due key b

/-- Keys are distinct. -/
def Distinct (key : α → κ) (l : List α) : Prop := ∀ a ∈ l, ∀ b ∈ l, key a = key b → a = b

theorem First.unique {now : τ} {l : List α} {a b : α} (hl : Distinct key l)
    (ha : First due key now l a) (hb : First due key now l b) : a = b := by
  have heq := le_antisymm (ha.least b hb.mem hb.due_le) (hb.least a ha.mem ha.due_le)
  exact hl a ha.mem b hb.mem (congrArg (fun r => (ofLex r).2) heq)

theorem First.congr {now : τ} {l l' : List α} {a : α} (h : ∀ b, b ∈ l ↔ b ∈ l')
    (ha : First due key now l a) : First due key now l' a :=
  ⟨(h a).mp ha.mem, ha.due_le, fun b hb => ha.least b ((h b).mpr hb)⟩

/-! ## Finding the entry -/

theorem distinct_rows (t : Table key) : Distinct key t.rows := fun _ ha _ hb h =>
  Table.eq_of_key ha hb h

/-- The first of the earliest entries, in a list in key order. -/
theorem argmin_least {l : List α} (hl : l.Pairwise (fun a b => key a < key b)) {a : α}
    (ha : l.argmin due = some a) : ∀ b ∈ l, rank due key a ≤ rank due key b := by
  induction l generalizing a with
  | nil => cases ha
  | cons x l ih =>
    obtain ⟨hx, hl⟩ := List.pairwise_cons.mp hl
    rw [List.argmin_cons] at ha
    cases hc : l.argmin due with
    | none =>
      rw [hc] at ha
      cases ha
      intro b hb
      rw [List.argmin_eq_none.mp hc, List.mem_singleton] at hb
      rw [hb]
    | some c =>
      rw [hc] at ha
      dsimp only at ha
      split at ha
      · next hlt =>
        cases ha
        intro b hb
        obtain rfl | hb := List.mem_cons.mp hb
        · exact rank_le_iff.mpr (.inl hlt)
        · exact ih hl hc b hb
      · next hle =>
        cases ha
        intro b hb
        obtain rfl | hb := List.mem_cons.mp hb
        · exact le_refl _
        · obtain hlt | heq := lt_or_eq_of_le
            (le_trans (not_lt.mp hle) (due_le_of_rank_le (ih hl hc b hb)))
          · exact rank_le_iff.mpr (.inl hlt)
          · exact rank_le_iff.mpr (.inr ⟨heq, (hx b hb).le⟩)

/-- The entries due by `now`. -/
def dueBy (due : α → τ) (now : τ) (l : List α) : List α := l.filter (fun a => decide (due a ≤ now))

theorem mem_dueBy {now : τ} {l : List α} {a : α} : a ∈ dueBy due now l ↔ a ∈ l ∧ due a ≤ now := by
  rw [dueBy, List.mem_filter, decide_eq_true_iff]

/-- Whichever way the least of the due entries is found, it is the one to serve. -/
theorem eq_some_iff_first {now : τ} {l : List α} {found : Option α} (hl : Distinct key l)
    (hnone : found = none → dueBy due now l = [])
    (hsome : ∀ a, found = some a → a ∈ dueBy due now l ∧
      ∀ b ∈ dueBy due now l, rank due key a ≤ rank due key b) {a : α} :
    found = some a ↔ First due key now l a := by
  have hfirst : ∀ {b}, found = some b → First due key now l b := by
    intro b hb
    obtain ⟨hin, hleast⟩ := hsome b hb
    obtain ⟨hmem, hdue⟩ := mem_dueBy.mp hin
    exact ⟨hmem, hdue, fun c hc hdue => hleast c (mem_dueBy.mpr ⟨hc, hdue⟩)⟩
  refine ⟨hfirst, fun h => ?_⟩
  cases hf : found with
  | none =>
    have hin := mem_dueBy.mpr ⟨h.mem, h.due_le⟩
    rw [hnone hf] at hin
    cases hin
  | some b => rw [(hfirst hf).unique hl h]

/-- The first of the earliest due entries. -/
def earliest (due : α → τ) (now : τ) (l : List α) : Option α := (dueBy due now l).argmin due

/-- Iterated in key order, the first of the earliest due entries is served. -/
theorem earliest_eq_some_iff (t : Table key) {now : τ} {a : α} :
    earliest due now t.rows = some a ↔ First due key now t.rows a := by
  refine eq_some_iff_first (distinct_rows t) List.argmin_eq_none.mp fun b hb => ?_
  exact ⟨List.argmin_mem hb, argmin_least (t.sorted.filter _) hb⟩

/-- The due entries in the order of service (`ORDER BY`). -/
def inOrder (due : α → τ) (key : α → κ) (now : τ) (l : List α) : List α :=
  (dueBy due now l).insertionSort (fun a b => rank due key a ≤ rank due key b)

theorem mem_inOrder {now : τ} {l : List α} {a : α} :
    a ∈ inOrder due key now l ↔ a ∈ l ∧ due a ≤ now :=
  (List.mem_insertionSort _).trans mem_dueBy

/-- Put in order, the first due entry is served (`LIMIT 1`). -/
theorem head_inOrder_iff {now : τ} {l : List α} (hl : Distinct key l) {a : α} :
    (inOrder due key now l).head? = some a ↔ First due key now l a := by
  have htrans : IsTrans α (fun a b => rank due key a ≤ rank due key b) := ⟨fun _ _ _ => le_trans⟩
  have htotal : Std.Total (fun a b => rank due key a ≤ rank due key b) := ⟨fun _ _ => le_total _ _⟩
  have hsorted : (inOrder due key now l).Pairwise (fun a b => rank due key a ≤ rank due key b) :=
    List.pairwise_insertionSort _ _
  refine eq_some_iff_first hl (fun hnone => ?_) fun b hb => ?_
  · rw [List.head?_eq_none_iff] at hnone
    refine List.eq_nil_iff_forall_not_mem.mpr fun b hb => ?_
    have hin : b ∈ inOrder due key now l := mem_inOrder.mpr (mem_dueBy.mp hb)
    rw [hnone] at hin
    cases hin
  · obtain ⟨rest, hrest⟩ := List.head?_eq_some_iff.mp hb
    rw [hrest, List.pairwise_cons] at hsorted
    refine ⟨mem_dueBy.mpr (mem_inOrder.mp (List.mem_of_mem_head? hb)), fun c hc => ?_⟩
    have hin : c ∈ inOrder due key now l := mem_inOrder.mpr (mem_dueBy.mp hc)
    rw [hrest] at hin
    obtain rfl | hin := List.mem_cons.mp hin
    · exact le_refl _
    · exact hsorted.1 c hin

/-- Where anything is due, something is served. -/
theorem exists_first {now : τ} {l : List α} (hl : Distinct key l) {a : α} (ha : a ∈ l)
    (hdue : due a ≤ now) : ∃ b, First due key now l b := by
  cases hf : (inOrder due key now l).head? with
  | some b => exact ⟨b, (head_inOrder_iff hl).mp hf⟩
  | none =>
    have hin : a ∈ inOrder due key now l := mem_inOrder.mpr ⟨ha, hdue⟩
    rw [List.head?_eq_none_iff.mp hf] at hin
    cases hin

/-! ## Waiting -/

/-- The entries served before `a`. -/
def ahead (due : α → τ) (key : α → κ) (a : α) (l : List α) : List α :=
  l.filter (fun b => decide (rank due key b < rank due key a))

theorem mem_ahead {a b : α} {l : List α} :
    b ∈ ahead due key a l ↔ b ∈ l ∧ rank due key b < rank due key a := by
  rw [ahead, List.mem_filter, decide_eq_true_iff]

/-- What is served instead of a due entry is ahead of it. -/
theorem First.ahead_or_eq {now : τ} {l : List α} {a b : α} (hl : Distinct key l)
    (hb : First due key now l b) (ha : a ∈ l) (hdue : due a ≤ now) :
    b ∈ ahead due key a l ∨ b = a := by
  obtain hlt | heq := lt_or_eq_of_le (hb.least a ha hdue)
  · exact .inl (mem_ahead.mpr ⟨hb.mem, hlt⟩)
  · exact .inr (hl b hb.mem a ha (congrArg (fun r => (ofLex r).2) heq))

/-- A step after which nothing else is ahead does not make an entry wait longer. -/
theorem ahead_length_le {a : α} {l l' : List α} (hl' : l'.Nodup)
    (h : ∀ b ∈ ahead due key a l', b ∈ l) :
    (ahead due key a l').length ≤ (ahead due key a l).length := by
  refine (List.subperm_of_subset (hl'.filter _) fun b hb => ?_).length_le
  exact mem_ahead.mpr ⟨h b hb, (mem_ahead.mp hb).2⟩

/-- And if an entry that was ahead is no longer, it waits less long. -/
theorem ahead_length_lt {a c : α} {l l' : List α} (hl' : l'.Nodup)
    (h : ∀ b ∈ ahead due key a l', b ∈ l) (hc : c ∈ ahead due key a l)
    (hgone : c ∉ ahead due key a l') :
    (ahead due key a l').length < (ahead due key a l).length := by
  have hnodup : (c :: ahead due key a l').Nodup := List.nodup_cons.mpr ⟨hgone, hl'.filter _⟩
  refine (List.subperm_of_subset hnodup fun b hb => ?_).length_le
  obtain rfl | hb := List.mem_cons.mp hb
  · exact hc
  · exact mem_ahead.mpr ⟨h b hb, (mem_ahead.mp hb).2⟩

end Agenda
