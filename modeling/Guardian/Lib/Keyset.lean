import Mathlib

/- Pages by a key.

   A page is what comes first, by a key, of the rows past a cursor; the key of its last
   row is the next cursor. `IsPage` says so of a list, however it was computed. A sweep
   is a run of pages from no cursor to a page that is not full. The rows may change
   from page to page; one that is there throughout is on exactly one of the pages
   (`Sweep.exactly_once`). -/
namespace Keyset

variable {ρ κ : Type} [LinearOrder κ]

/-- Past the cursor. -/
def After (cursor : Option κ) (k : κ) : Prop := ∀ c ∈ cursor, c < k

/-- The first `limit` rows past the cursor, in the order of their keys. -/
structure IsPage (key : ρ → κ) (limit : Nat) (rows : List ρ) (cursor : Option κ) (page : List ρ) :
    Prop where
  mem : ∀ r ∈ page, r ∈ rows ∧ After cursor (key r)
  sorted : page.Pairwise fun a b => key a < key b
  complete : ∀ r ∈ rows, After cursor (key r) → r ∈ page ∨
    (limit ≤ page.length ∧ ∀ p ∈ page, key p < key r)

/-- The beginning of a sorted list of the rows past the cursor. -/
theorem isPage_take {key : ρ → κ} {limit : Nat} {rows found : List ρ} {cursor : Option κ}
    (hmem : ∀ r, r ∈ found ↔ r ∈ rows ∧ After cursor (key r))
    (hsorted : found.Pairwise fun a b => key a < key b) :
    IsPage key limit rows cursor (found.take limit) where
  mem := fun r hr => (hmem r).mp (List.mem_of_mem_take hr)
  sorted := hsorted.sublist (List.take_sublist limit found)
  complete := by
    intro r hr hafter
    have hfound : r ∈ found := (hmem r).mpr ⟨hr, hafter⟩
    rw [← List.take_append_drop limit found, List.mem_append] at hfound
    obtain hin | hrest := hfound
    · exact .inl hin
    · refine .inr ⟨?_, ?_⟩
      · have hlong : limit < found.length := by
          by_contra hshort
          rw [List.drop_eq_nil_of_le (Nat.le_of_not_lt hshort)] at hrest
          cases hrest
        rw [List.length_take]
        omega
      · intro p hp
        rw [← List.take_append_drop limit found, List.pairwise_append] at hsorted
        exact hsorted.2.2 p hp r hrest

/-- Rows of different keys, sorted. -/
theorem pairwise_mergeSort {key : ρ → κ} {rows : List ρ}
    (hne : rows.Pairwise fun a b => key a ≠ key b) :
    (rows.mergeSort fun a b => decide (key a ≤ key b)).Pairwise fun a b => key a < key b := by
  have htrans : ∀ a b c : ρ, decide (key a ≤ key b) = true → decide (key b ≤ key c) = true →
      decide (key a ≤ key c) = true := by
    intro a b c hab hbc
    rw [decide_eq_true_eq] at hab hbc ⊢
    exact le_trans hab hbc
  have htotal : ∀ a b : ρ, (decide (key a ≤ key b) || decide (key b ≤ key a)) = true := by
    intro a b
    rw [Bool.or_eq_true, decide_eq_true_eq, decide_eq_true_eq]
    exact le_total _ _
  have hsorted := List.pairwise_mergeSort htrans htotal rows
  have hdiffer : (rows.mergeSort fun a b => decide (key a ≤ key b)).Pairwise
      fun a b => key a ≠ key b :=
    (List.mergeSort_perm rows _).symm.pairwise hne fun h => h.symm
  refine (hsorted.and hdiffer).imp ?_
  rintro a b ⟨hle, hne'⟩
  exact lt_of_le_of_ne (of_decide_eq_true hle) hne'

namespace IsPage

variable {key : ρ → κ} {limit : Nat} {rows page : List ρ} {cursor : Option κ}

theorem nodup (h : IsPage key limit rows cursor page) : page.Nodup := by
  refine h.sorted.imp ?_
  rintro a b hlt rfl
  exact lt_irrefl _ hlt

/-- The last row has the largest key. -/
theorem le_last (h : IsPage key limit rows cursor page) {r last : ρ} (hr : r ∈ page)
    (hlast : page.getLast? = some last) : key r ≤ key last := by
  obtain ⟨front, rfl⟩ := List.getLast?_eq_some_iff.mp hlast
  obtain hfront | hsame := List.mem_append.mp hr
  · exact le_of_lt ((List.pairwise_append.mp h.sorted).2.2 r hfront last (List.mem_singleton_self _))
  · rw [List.mem_singleton.mp hsame]

end IsPage

/-- Pages `first` to `last`: each one worked moves the cursor to its last row, until one
    is not full. One that is not worked leaves the cursor. -/
structure Sweep (key : ρ → κ) (limit : Nat) (rows pages : Nat → List ρ) (cursor : Nat → Option κ)
    (worked : Nat → Bool) (first last : Nat) : Prop where
  page : ∀ j, IsPage key limit (rows j) (cursor j) (pages j)
  begins : cursor first = none
  idle : ∀ j, first ≤ j → j < last → worked j = false → cursor (j + 1) = cursor j
  moves : ∀ j, first ≤ j → j < last → worked j = true →
    ∃ r, (pages j).getLast? = some r ∧ cursor (j + 1) = some (key r)
  ends : worked last = true ∧ (pages last).length < limit

namespace Sweep

variable {key : ρ → κ} {limit : Nat} {rows pages : Nat → List ρ} {cursor : Nat → Option κ}
  {worked : Nat → Bool} {first last : Nat}

/-- A row not on a page yet is past the cursor. -/
theorem after_of_unseen (h : Sweep key limit rows pages cursor worked first last) {r : ρ}
    (hrows : ∀ j, first ≤ j → j ≤ last → r ∈ rows j) {n : Nat} (hn : first + n ≤ last)
    (hunseen : ∀ j, first ≤ j → j < first + n → worked j = true → r ∉ pages j) :
    After (cursor (first + n)) (key r) := by
  induction n with
  | zero =>
    intro c hc
    rw [Nat.add_zero, h.begins] at hc
    cases hc
  | succ n ih =>
    have hbefore : After (cursor (first + n)) (key r) := by
      refine ih (by omega) ?_
      intro j hj hlt
      exact hunseen j hj (by omega)
    cases hworked : worked (first + n) with
    | false =>
      rw [← Nat.add_assoc, h.idle _ (by omega) (by omega) hworked]
      exact hbefore
    | true =>
      obtain ⟨lastRow, hlast, hcursor⟩ := h.moves _ (by omega) (by omega) hworked
      rw [← Nat.add_assoc, hcursor]
      intro c hc
      cases hc
      have hmiss := hunseen _ (by omega) (by omega) hworked
      have hpage := (h.page (first + n)).complete r (hrows _ (by omega) (by omega)) hbefore
      obtain hin | ⟨_, hall⟩ := hpage
      · exact absurd hin hmiss
      · exact hall lastRow (List.mem_of_getLast? hlast)

/-- A row on a page is not past any later cursor. -/
theorem not_after_of_seen (h : Sweep key limit rows pages cursor worked first last) {r : ρ} {j n : Nat}
    (hj : first ≤ j) (hworked : worked j = true) (hr : r ∈ pages j) (hn : j + 1 + n ≤ last) :
    ∃ c, cursor (j + 1 + n) = some c ∧ key r ≤ c := by
  induction n with
  | zero =>
    obtain ⟨lastRow, hlast, hcursor⟩ := h.moves j hj (by omega) hworked
    exact ⟨key lastRow, hcursor, (h.page j).le_last hr hlast⟩
  | succ n ih =>
    obtain ⟨c, hc, hle⟩ := ih (by omega)
    cases hnext : worked (j + 1 + n) with
    | false =>
      refine ⟨c, ?_, hle⟩
      rw [← Nat.add_assoc, h.idle _ (by omega) (by omega) hnext]
      exact hc
    | true =>
      obtain ⟨lastRow, hlast, hcursor⟩ := h.moves _ (by omega) (by omega) hnext
      have hpast := ((h.page (j + 1 + n)).mem lastRow (List.mem_of_getLast? hlast)).2 c hc
      exact ⟨key lastRow, hcursor, le_trans hle (le_of_lt hpast)⟩

theorem at_most_once (h : Sweep key limit rows pages cursor worked first last) {r : ρ} {i j : Nat}
    (hi : first ≤ i) (hij : i < j) (hj : j ≤ last) (hwi : worked i = true) (hri : r ∈ pages i) :
    r ∉ pages j := by
  intro hrj
  have hn : i + 1 + (j - (i + 1)) = j := by omega
  obtain ⟨c, hc, hle⟩ := h.not_after_of_seen hi hwi hri (Nat.le_trans (Nat.le_of_eq hn) hj)
  rw [hn] at hc
  exact absurd (((h.page j).mem r hrj).2 c hc) (not_lt_of_ge hle)

/-- A row that is there throughout a sweep is on exactly one of its pages. -/
theorem exactly_once (h : Sweep key limit rows pages cursor worked first last) (hle : first ≤ last)
    {r : ρ} (hrows : ∀ j, first ≤ j → j ≤ last → r ∈ rows j) :
    ∃ j, (first ≤ j ∧ j ≤ last ∧ worked j = true ∧ r ∈ pages j) ∧
      ∀ i, first ≤ i → i ≤ last → worked i = true → r ∈ pages i → i = j := by
  have hseen : ∃ j, first ≤ j ∧ j ≤ last ∧ worked j = true ∧ r ∈ pages j := by
    by_contra hnone
    have hn : first + (last - first) = last := by omega
    have hafter := h.after_of_unseen hrows (Nat.le_of_eq hn)
      fun j hj hlt hw hr => hnone ⟨j, hj, by omega, hw, hr⟩
    rw [hn] at hafter
    -- the last page has room for every row past the cursor
    obtain hin | ⟨hfull, _⟩ := (h.page last).complete r (hrows last hle (Nat.le_refl _)) hafter
    · exact hnone ⟨last, hle, Nat.le_refl _, h.ends.1, hin⟩
    · exact absurd h.ends.2 (Nat.not_lt.mpr hfull)
  obtain ⟨j, hj, hjl, hwj, hrj⟩ := hseen
  refine ⟨j, ⟨hj, hjl, hwj, hrj⟩, ?_⟩
  intro i hi hil hwi hri
  obtain hlt | heq | hgt := Nat.lt_trichotomy i j
  · exact absurd hrj (h.at_most_once hi hlt hjl hwi hri)
  · exact heq
  · exact absurd hri (h.at_most_once hj hgt hil hwj hrj)

end Sweep

end Keyset
