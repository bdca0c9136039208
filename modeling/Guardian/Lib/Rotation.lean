import Mathlib

/- Pages of a sorted list under a cursor.

   A page starts after the cursor and wraps around; its last element is the next
   cursor. On a list that does not change, the page that begins at position `s` is
   followed by the one at `(s + size) % length` (`start_next`), so the pages begin at
   `s`, `s + size`, `s + 2 * size`, … around the list (`start_iterate`). An element at
   position `i` is among the first `k` of a page that begins at `s` exactly when it
   lies less than `k` after `s` (`mem_take_rotate`). -/
namespace Rotation

variable {α : Type}

/-- An element is among the first `k` from `s` on if it is less than `k` after `s`. -/
theorem mem_take_rotate {xs : List α} (hnodup : xs.Nodup) {s i k : Nat} (hs : s < xs.length) (hi : i < xs.length) :
    xs[i] ∈ (xs.rotate s).take k ↔ (i + (xs.length - s)) % xs.length < k := by
  have hget : ∀ j, (hj : j < xs.length) →
      (xs.rotate s)[j]? = some (xs.get ⟨(j + s) % xs.length, Nat.mod_lt _ (by omega)⟩) := by
    intro j hj
    rw [List.getElem?_rotate hj, List.getElem?_eq_getElem (Nat.mod_lt _ (by omega))]
    rfl
  have hoffset : (i + (xs.length - s)) % xs.length < xs.length := Nat.mod_lt _ (by omega)
  constructor
  · intro hmem
    obtain ⟨j, hj⟩ := List.mem_iff_getElem?.mp hmem
    have hjk : j < k := by
      by_contra hge
      rw [List.getElem?_take, if_neg hge] at hj
      cases hj
    rw [List.getElem?_take_of_lt hjk] at hj
    have hjlen : j < xs.length := by
      rw [← List.length_rotate xs s]
      exact (List.getElem?_eq_some_iff.mp hj).1
    rw [hget j hjlen] at hj
    have hidx : (j + s) % xs.length = i := by
      have hinj := (List.Nodup.getElem_inj_iff hnodup).mp (Option.some.inj hj)
      exact hinj
    have hback : (i + (xs.length - s)) % xs.length = j := by
      rw [← hidx, Nat.mod_add_mod]
      have hsum : j + s + (xs.length - s) = j + xs.length := by omega
      rw [hsum, Nat.add_mod_right, Nat.mod_eq_of_lt hjlen]
    omega
  · intro hlt
    rw [List.mem_iff_getElem?]
    refine ⟨(i + (xs.length - s)) % xs.length, ?_⟩
    rw [List.getElem?_take_of_lt hlt, hget _ hoffset]
    refine congrArg some ?_
    have hidx : ((i + (xs.length - s)) % xs.length + s) % xs.length = i := by
      rw [Nat.mod_add_mod]
      have hsum : i + (xs.length - s) + s = i + xs.length := by omega
      rw [hsum, Nat.add_mod_right, Nat.mod_eq_of_lt hi]
    simp only [List.get_eq_getElem, hidx]

variable [LinearOrder α]

/-- The position after the cursor, the first one if nothing is after it. -/
def start (xs : List α) : Option α → Nat
  | none => 0
  | some cursor => (xs.findIdx? fun a => decide (cursor < a)).getD 0

/-- The page after the cursor. -/
def page (size : Nat) (xs : List α) (cursor : Option α) : List α :=
  (xs.rotate (start xs cursor)).take size

/-- The cursor a page leaves, none where the page was the whole list. -/
def next (size : Nat) (xs : List α) (cursor : Option α) : Option α :=
  if (page size xs cursor).length < xs.length then (page size xs cursor).getLast? else none

theorem start_lt {xs : List α} (hne : xs ≠ []) (cursor : Option α) :
    start xs cursor < xs.length := by
  have hpos : 0 < xs.length := List.length_pos_of_ne_nil hne
  cases cursor with
  | none => exact hpos
  | some c =>
    rw [start]
    cases hidx : xs.findIdx? (fun a => decide (c < a)) with
    | none => exact hpos
    | some i =>
      obtain ⟨hi, -, -⟩ := List.findIdx?_eq_some_iff_getElem.mp hidx
      exact hi

/-- After an element comes the next one, after the last the first. -/
theorem start_some {xs : List α} (hsorted : xs.Pairwise (· < ·)) {i : Nat} (hi : i < xs.length) :
    start xs (some xs[i]) = (i + 1) % xs.length := by
  have hless : ∀ j (hj : j < xs.length), xs[i] < xs[j] ↔ i < j := by
    intro j hj
    rw [List.pairwise_iff_getElem] at hsorted
    constructor
    · intro hlt
      by_contra hge
      obtain hlt' | heq := Nat.lt_or_eq_of_le (Nat.le_of_not_lt hge)
      · exact absurd hlt (lt_asymm (hsorted j i hj hi hlt'))
      · subst heq
        exact lt_irrefl _ hlt
    · exact hsorted i j hi hj
  rw [start]
  by_cases hend : i + 1 < xs.length
  · have hidx : xs.findIdx? (fun a => decide (xs[i] < a)) = some (i + 1) := by
      rw [List.findIdx?_eq_some_iff_getElem]
      refine ⟨hend, ?_, ?_⟩
      · exact decide_eq_true ((hless (i + 1) hend).mpr (Nat.lt_succ_self i))
      · intro j hj hlt
        have := (hless j (Nat.lt_trans hj hend)).mp (of_decide_eq_true hlt)
        omega
    rw [hidx, Nat.mod_eq_of_lt hend]
    rfl
  · have hidx : xs.findIdx? (fun a => decide (xs[i] < a)) = none := by
      rw [List.findIdx?_eq_none_iff]
      intro x hx
      obtain ⟨j, hj, rfl⟩ := List.getElem_of_mem hx
      refine decide_eq_false ?_
      rw [hless j hj]
      omega
    have hlast : i + 1 = xs.length := by omega
    rw [hidx, hlast, Nat.mod_self]
    rfl

section Pages

variable {xs : List α} {size : Nat}

theorem length_page (size : Nat) (xs : List α) (cursor : Option α) :
    (page size xs cursor).length = min size xs.length := by
  rw [page, List.length_take, List.length_rotate]

/-- A page of the whole list leaves no cursor. -/
theorem next_whole (hwhole : xs.length ≤ size) (cursor : Option α) : next size xs cursor = none := by
  have hlen := length_page size xs cursor
  rw [next, if_neg]
  omega

/-- The page after a page begins where that one ended. -/
theorem start_next (hsorted : xs.Pairwise (· < ·)) (hpos : 0 < size) (hpart : size < xs.length)
    (cursor : Option α) :
    start xs (next size xs cursor) = (start xs cursor + size) % xs.length := by
  have hlen := length_page size xs cursor
  have hmin : (page size xs cursor).length = size := by omega
  have hlast : (size - 1 + start xs cursor) % xs.length < xs.length := Nat.mod_lt _ (by omega)
  have hget : (page size xs cursor).getLast? = some xs[(size - 1 + start xs cursor) % xs.length] := by
    rw [List.getLast?_eq_getElem?, hmin, page, List.getElem?_take_of_lt (by omega),
      List.getElem?_rotate (by omega), List.getElem?_eq_getElem hlast]
  rw [next, if_pos (by omega), hget, start_some hsorted hlast, Nat.mod_add_mod]
  congr 1
  omega

/-- The pages of a list that does not change. -/
theorem start_iterate (hsorted : xs.Pairwise (· < ·)) (hpos : 0 < size) (hpart : size < xs.length)
    {cursor : Nat → Option α} (hnext : ∀ j, cursor (j + 1) = next size xs (cursor j)) (first j : Nat) :
    start xs (cursor (first + j)) = (start xs (cursor first) + j * size) % xs.length := by
  induction j with
  | zero =>
    have hlt : start xs (cursor first) < xs.length :=
      start_lt (List.ne_nil_of_length_pos (by omega)) _
    rw [Nat.zero_mul, Nat.add_zero, Nat.add_zero, Nat.mod_eq_of_lt hlt]
  | succ j ih =>
    rw [← Nat.add_assoc, hnext, start_next hsorted hpos hpart, ih, Nat.mod_add_mod, Nat.add_mul,
      Nat.one_mul, Nat.add_assoc]

end Pages

end Rotation
