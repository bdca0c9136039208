import Guardian.Lib.Rotation
import Mathlib.Data.Finset.Sort
import Mathlib.Data.String.Basic

/- Which accounts a reconcile pass visits (`process_reconcile_pass`).

   A pass lists the accounts with recoverable rows, takes the page after its cursor
   and moves the cursor to the end of that page, all before it works the page. A pass
   whose deadline closes admission early leaves the rest of its page to the pass that
   comes around to it again. Whether one does is arithmetic in the number of accounts,
   the page size and how far the passes get (`attempted_iff`): where a page is the
   whole list every pass starts at the first account, and the accounts a cut pass does
   not reach are never reached. -/
namespace Guardian.Reconcile

/-- `Vec::dedup`. -/
def dedup : List String → List String
  | [] => []
  | [a] => [a]
  | a :: b :: rest => if a = b then dedup (b :: rest) else a :: dedup (b :: rest)

/-- The accounts in order, each once. -/
def sortedIds (listed : List String) : List String :=
  dedup (listed.mergeSort fun a b => decide (a ≤ b))

/-- The page of a pass, and the cursor it leaves to the next one. -/
def passPage (pageSize : Nat) (listed : List String) (cursor : Option String) :
    List String × Option String :=
  if listed.isEmpty then ([], none)
  else (Rotation.page (max pageSize 1) (sortedIds listed) cursor,
    Rotation.next (max pageSize 1) (sortedIds listed) cursor)

theorem mem_dedup {ids : List String} {a : String} : a ∈ dedup ids ↔ a ∈ ids := by
  induction ids using dedup.induct with
  | case1 => rfl
  | case2 b => rfl
  | case3 b rest ih =>
    rw [dedup, if_pos rfl, ih]
    simp
  | case4 b c rest hne ih =>
    rw [dedup, if_neg hne, List.mem_cons, ih, List.mem_cons (b := b)]

theorem pairwise_dedup {ids : List String} (h : ids.Pairwise (· ≤ ·)) :
    (dedup ids).Pairwise (· < ·) := by
  induction ids using dedup.induct with
  | case1 => exact List.Pairwise.nil
  | case2 b => exact List.pairwise_singleton _ _
  | case3 b rest ih =>
    rw [dedup, if_pos rfl]
    exact ih (List.pairwise_cons.mp h).2
  | case4 b c rest hne ih =>
    obtain ⟨hb, hrest⟩ := List.pairwise_cons.mp h
    rw [dedup, if_neg hne, List.pairwise_cons]
    refine ⟨?_, ih hrest⟩
    intro a ha
    have hbc : b < c := lt_of_le_of_ne (hb c (List.mem_cons_self ..)) hne
    rcases List.mem_cons.mp (mem_dedup.mp ha) with rfl | hmem
    · exact hbc
    · exact lt_of_lt_of_le hbc ((List.pairwise_cons.mp hrest).1 a hmem)

theorem mem_sortedIds {listed : List String} {a : String} : a ∈ sortedIds listed ↔ a ∈ listed := by
  rw [sortedIds, mem_dedup, List.mem_mergeSort]

theorem pairwise_sortedIds (listed : List String) : (sortedIds listed).Pairwise (· < ·) := by
  have htrans : ∀ a b c : String, decide (a ≤ b) = true → decide (b ≤ c) = true →
      decide (a ≤ c) = true := by
    intro a b c hab hbc
    rw [decide_eq_true_eq] at hab hbc ⊢
    exact le_trans hab hbc
  have htotal : ∀ a b : String, (decide (a ≤ b) || decide (b ≤ a)) = true := by
    intro a b
    rw [Bool.or_eq_true, decide_eq_true_eq, decide_eq_true_eq]
    exact le_total a b
  exact pairwise_dedup ((List.pairwise_mergeSort htrans htotal listed).imp fun h => of_decide_eq_true h)

/-- The order of a pass depends only on which accounts there are. -/
theorem sortedIds_eq {listed : List String} {accounts : Finset String}
    (h : listed.toFinset = accounts) : sortedIds listed = accounts.sort := by
  subst h
  have hnodup : (sortedIds listed).Nodup := (pairwise_sortedIds listed).imp fun h => ne_of_lt h
  have hperm : (sortedIds listed).Perm (listed.toFinset.sort) := by
    rw [List.perm_ext_iff_of_nodup hnodup (Finset.sort_nodup _ _)]
    intro a
    rw [mem_sortedIds, Finset.mem_sort, List.mem_toFinset]
  exact hperm.eq_of_pairwise (fun a b _ _ hab hba => absurd hab (lt_asymm hba))
    (pairwise_sortedIds listed) (Finset.sortedLT_sort _).pairwise

/-! ## Passes over a fixed set of accounts -/

/-- Passes over accounts that keep their recoverable rows. Each attempts at least the
    first `k` accounts of its page before its deadline closes admission; each may list
    the accounts in any order. -/
structure Passes (accounts : Finset String) (pageSize k : Nat) where
  listed : Nat → List String
  cursor : Nat → Option String
  attempted : Nat → List String
  lists : ∀ j, (listed j).toFinset = accounts
  step : ∀ j, cursor (j + 1) = (passPage pageSize (listed j) (cursor j)).2
  within : ∀ j, ∀ a ∈ attempted j, a ∈ (passPage pageSize (listed j) (cursor j)).1
  enough : ∀ j, ∀ a ∈ (passPage pageSize (listed j) (cursor j)).1.take k, a ∈ attempted j

/-- In any `2 * ⌈n / k⌉` passes in a row every account is attempted. -/
def EveryAttempted (accounts : Finset String) (pageSize k : Nat) : Prop :=
  ∀ passes : Passes accounts pageSize k, ∀ account ∈ accounts, ∀ first,
    ∃ j, first ≤ j ∧ j < first + 2 * ((accounts.card + k - 1) / k) ∧ account ∈ passes.attempted j

/-- Around a list of `n`, the first `count` multiples of `size` leave no gap longer
    than `k`. -/
def Dense (n size k count : Nat) : Prop :=
  ∀ i < n, ∃ j < count, (i + (n - j * size % n)) % n < k

instance (n size k count : Nat) : Decidable (Dense n size k count) :=
  inferInstanceAs (Decidable (∀ i < n, ∃ j < count, (i + (n - j * size % n)) % n < k))

/-- Where the page is the whole list a pass has to reach its end; where it is not, the
    pages have to begin close enough to every account. -/
def Reaches (n pageSize k : Nat) : Prop :=
  if n ≤ pageSize then n ≤ k else Dense n pageSize k (2 * ((n + k - 1) / k))

instance (n pageSize k : Nat) : Decidable (Reaches n pageSize k) :=
  inferInstanceAs (Decidable
    (if n ≤ pageSize then n ≤ k else Dense n pageSize k (2 * ((n + k - 1) / k))))

/-- Passes that are not cut reach every account, whatever the sizes. -/
theorem reaches_uncut {n pageSize : Nat} (hp : 0 < pageSize) : Reaches n pageSize pageSize := by
  rw [Reaches]
  split
  next hwhole => exact hwhole
  next hpart =>
    intro i hi
    have hle : i / pageSize * pageSize ≤ i := Nat.div_mul_le_self i pageSize
    have hrest : i - i / pageSize * pageSize < pageSize := by
      have hmod := Nat.mod_lt i hp
      have hsplit := Nat.div_add_mod i pageSize
      rw [Nat.mul_comm] at hsplit
      omega
    refine ⟨i / pageSize, ?_, ?_⟩
    · have hcount : i / pageSize < (n + pageSize - 1) / pageSize := by
        have hnext : (i / pageSize + 1) * pageSize ≤ n + pageSize - 1 := by
          rw [Nat.add_one_mul]
          omega
        exact (Nat.le_div_iff_mul_le hp).mpr hnext
      omega
    · have hback : i + (n - i / pageSize * pageSize) = i - i / pageSize * pageSize + n := by omega
      have hbefore : i / pageSize * pageSize % n = i / pageSize * pageSize :=
        Nat.mod_eq_of_lt (Nat.lt_of_le_of_lt hle hi)
      rw [hbefore, hback, Nat.add_mod_right, Nat.mod_eq_of_lt (Nat.lt_of_le_of_lt (Nat.sub_le _ _) hi)]
      exact hrest

section Turns

variable {accounts : Finset String} {pageSize k : Nat}

theorem passPage_eq {listed : List String} (h : listed.toFinset = accounts)
    (hsome : accounts.Nonempty) (hp : 1 ≤ pageSize) (cursor : Option String) :
    passPage pageSize listed cursor =
      (Rotation.page pageSize accounts.sort cursor, Rotation.next pageSize accounts.sort cursor) := by
  have hne : ¬ listed.isEmpty = true := by
    intro hempty
    rw [List.isEmpty_iff.mp hempty, List.toFinset_nil] at h
    rw [← h] at hsome
    exact Finset.not_nonempty_empty hsome
  rw [passPage, if_neg hne, sortedIds_eq h, Nat.max_eq_left hp]

theorem Passes.next (passes : Passes accounts pageSize k) (hsome : accounts.Nonempty)
    (hp : 1 ≤ pageSize) (j : Nat) :
    passes.cursor (j + 1) = Rotation.next pageSize accounts.sort (passes.cursor j) := by
  rw [passes.step, passPage_eq (passes.lists j) hsome hp]

/-- The account at position `i` is attempted when its page begins at most `k` before it. -/
theorem Passes.attempted_of_lt (passes : Passes accounts pageSize k) (hp : 1 ≤ pageSize)
    (hk : k ≤ pageSize) {i j : Nat} (hi : i < accounts.sort.length)
    (h : (i + (accounts.sort.length - Rotation.start accounts.sort (passes.cursor j))) %
      accounts.sort.length < k) :
    accounts.sort[i] ∈ passes.attempted j := by
  have hmem : accounts.sort[i] ∈ accounts := (Finset.mem_sort _).mp (List.getElem_mem hi)
  have hstart := Rotation.start_lt (List.ne_nil_of_length_pos (Nat.zero_lt_of_lt hi)) (passes.cursor j)
  apply passes.enough
  rw [passPage_eq (passes.lists j) ⟨_, hmem⟩ hp, Rotation.page, List.take_take, Nat.min_eq_left hk,
    Rotation.mem_take_rotate (Finset.sort_nodup _ _) hstart hi]
  exact h

/-- Passes that attempt no more than they have to, from no cursor. -/
def shortest (accounts : Finset String) (pageSize k : Nat) : Passes accounts pageSize k where
  listed _ := accounts.sort
  cursor := Nat.rec none fun _ cursor => (passPage pageSize accounts.sort cursor).2
  attempted j := (passPage pageSize accounts.sort
    (Nat.rec none (fun _ cursor => (passPage pageSize accounts.sort cursor).2) j)).1.take k
  lists _ := Finset.sort_toFinset _ _
  step _ := rfl
  within _ _ := List.mem_of_mem_take
  enough _ _ ha := ha

theorem shortest_attempted (hp : 1 ≤ pageSize) (hk : k ≤ pageSize) {i j : Nat}
    (hi : i < accounts.sort.length)
    (h : accounts.sort[i] ∈ (shortest accounts pageSize k).attempted j) :
    (i + (accounts.sort.length -
      Rotation.start accounts.sort ((shortest accounts pageSize k).cursor j))) %
        accounts.sort.length < k := by
  have hmem : accounts.sort[i] ∈ accounts := (Finset.mem_sort _).mp (List.getElem_mem hi)
  have hstart := Rotation.start_lt (List.ne_nil_of_length_pos (Nat.zero_lt_of_lt hi))
    ((shortest accounts pageSize k).cursor j)
  have hpage : accounts.sort[i] ∈
      (passPage pageSize accounts.sort ((shortest accounts pageSize k).cursor j)).1.take k := h
  rw [passPage_eq (Finset.sort_toFinset _ _) ⟨_, hmem⟩ hp, Rotation.page, List.take_take,
    Nat.min_eq_left hk, Rotation.mem_take_rotate (Finset.sort_nodup _ _) hstart hi] at hpage
  exact hpage

end Turns

/-- Turning the starting point turns the distances. -/
theorem offset_shift {n i s u : Nat} (hs : s < n) (hu : u < n) :
    (i + (n - (s + u) % n)) % n = ((i + (n - s)) % n + (n - u)) % n := by
  rw [Nat.mod_add_mod]
  by_cases hlt : s + u < n
  · have hsum : i + (n - s) + (n - u) = i + (n - (s + u)) + n := by omega
    rw [Nat.mod_eq_of_lt hlt, hsum, Nat.add_mod_right]
  · have hsub : (s + u) % n = s + u - n := by
      rw [Nat.mod_eq_sub_mod (Nat.le_of_not_lt hlt), Nat.mod_eq_of_lt (by omega)]
    have hsum : i + (n - (s + u - n)) = i + (n - s) + (n - u) := by omega
    rw [hsub, hsum]

section Bound

variable {accounts : Finset String} {pageSize k : Nat}

theorem everyAttempted_of_reaches (hk : 1 ≤ k) (hkp : k ≤ pageSize)
    (h : Reaches accounts.card pageSize k) : EveryAttempted accounts pageSize k := by
  intro passes account haccount first
  have hlen : accounts.sort.length = accounts.card := Finset.length_sort _
  have hsome : accounts.Nonempty := ⟨account, haccount⟩
  have hp : 1 ≤ pageSize := Nat.le_trans hk hkp
  obtain ⟨i, hi, rfl⟩ := List.getElem_of_mem ((Finset.mem_sort (· ≤ ·)).mpr haccount)
  have hpos : 0 < accounts.sort.length := Nat.zero_lt_of_lt hi
  rw [Reaches] at h
  split at h
  next hwhole =>
    -- one pass attempts the whole list
    have hcount : 0 < (accounts.card + k - 1) / k := Nat.div_pos (by omega) hk
    refine ⟨first, Nat.le_refl _, by omega, passes.attempted_of_lt hp hkp hi ?_⟩
    have hmod := Nat.mod_lt
      (i + (accounts.sort.length - Rotation.start accounts.sort (passes.cursor first))) hpos
    omega
  next hpart =>
    have hturn := Rotation.start_iterate (Finset.sortedLT_sort accounts).pairwise hp (by omega)
      (fun j => passes.next hsome hp j) first
    have hstart := Rotation.start_lt (List.ne_nil_of_length_pos hpos) (passes.cursor first)
    rw [← hlen] at h
    generalize hs : Rotation.start accounts.sort (passes.cursor first) = s at hturn hstart
    obtain ⟨j, hj, hnear⟩ := h ((i + (accounts.sort.length - s)) % accounts.sort.length)
      (Nat.mod_lt _ hpos)
    rw [← offset_shift hstart (Nat.mod_lt _ hpos), Nat.add_mod_mod, ← hturn j] at hnear
    rw [hlen] at hj
    exact ⟨first + j, Nat.le_add_right _ _, by omega, passes.attempted_of_lt hp hkp hi hnear⟩

theorem reaches_of_everyAttempted (hk : 1 ≤ k) (hkp : k ≤ pageSize)
    (h : EveryAttempted accounts pageSize k) : Reaches accounts.card pageSize k := by
  have hlen : accounts.sort.length = accounts.card := Finset.length_sort _
  have hp : 1 ≤ pageSize := Nat.le_trans hk hkp
  have hnext : ∀ hsome : accounts.Nonempty, ∀ j, (shortest accounts pageSize k).cursor (j + 1) =
      Rotation.next pageSize accounts.sort ((shortest accounts pageSize k).cursor j) :=
    fun hsome j => (shortest accounts pageSize k).next hsome hp j
  rw [Reaches]
  split
  next hwhole =>
    -- every pass starts at the first account
    by_contra hcut
    have hi : k < accounts.sort.length := by omega
    have hmem : accounts.sort[k] ∈ accounts := (Finset.mem_sort _).mp (List.getElem_mem hi)
    obtain ⟨j, -, -, hj⟩ := h (shortest accounts pageSize k) _ hmem 0
    have hnone : (shortest accounts pageSize k).cursor j = none := by
      cases j with
      | zero => rfl
      | succ j =>
        rw [hnext ⟨_, hmem⟩]
        exact Rotation.next_whole (by omega) _
    have hnear := shortest_attempted hp hkp hi hj
    rw [hnone, Rotation.start, Nat.sub_zero, Nat.add_mod_right, Nat.mod_eq_of_lt hi] at hnear
    exact Nat.lt_irrefl k hnear
  next hpart =>
    intro i hi
    rw [← hlen] at hi
    have hmem : accounts.sort[i] ∈ accounts := (Finset.mem_sort _).mp (List.getElem_mem hi)
    obtain ⟨j, -, hjlt, hj⟩ := h (shortest accounts pageSize k) _ hmem 0
    have hturn := Rotation.start_iterate (Finset.sortedLT_sort accounts).pairwise hp (by omega)
      (hnext ⟨_, hmem⟩) 0 j
    have hnone : (shortest accounts pageSize k).cursor 0 = none := rfl
    have hnear := shortest_attempted hp hkp hi hj
    rw [Nat.zero_add, hnone, Rotation.start, Nat.zero_add] at hturn
    rw [hturn, hlen] at hnear
    exact ⟨j, by omega, hnear⟩

end Bound

/-- Every account is attempted in every window of passes exactly where the pages, as
    far as they are attempted, reach every account. -/
theorem attempted_iff (accounts : Finset String) (pageSize k : Nat) (hk : 1 ≤ k)
    (hkp : k ≤ pageSize) :
    EveryAttempted accounts pageSize k ↔ Reaches accounts.card pageSize k :=
  ⟨reaches_of_everyAttempted hk hkp, everyAttempted_of_reaches hk hkp⟩

/-- Pages of two over three accounts, one attempted each: the pages begin everywhere. -/
theorem attempted_iff_three : EveryAttempted {"a", "b", "c"} 2 1 :=
  (attempted_iff {"a", "b", "c"} 2 1 (by decide) (by decide)).mpr (by decide)

/-- Over four they begin at the first and the third account only. -/
theorem cut_pages_starve : ¬ EveryAttempted {"a", "b", "c", "d"} 2 1 := by
  intro h
  have hreach := reaches_of_everyAttempted (by decide) (by decide) h
  revert hreach
  decide

end Guardian.Reconcile
