import Mathlib.Data.List.Basic
import Mathlib.Algebra.Group.Defs
import Mathlib.Tactic.Ring

/- Folds over the prefixes of a list.

   One pass over a list stores its running fold after every `size` elements; the
   fold over any prefix is then a stored one and less than a block more
   (`Blocks.fold_prefix`). Where a predicate holds of an initial part of a list and of
   nothing after it, a binary search finds the length of that part
   (`take_partitionPoint`). A fold that adds to maps does not see the order of the
   list (`bump_comm`). -/
namespace Prefixes

/-! ## Blocks -/

section Blocks

variable {α β : Type}

/-- The running fold and the copies stored of it, after `i` elements. -/
def blockLoop (size : Nat) (f : β → α → β) : Nat → β → List β → List α → β × List β
  | _, running, stored, [] => (running, stored)
  | i, running, stored, a :: rest =>
    if (i + 1) % size = 0 then
      blockLoop size f (i + 1) (f running a) (stored ++ [f running a]) rest
    else blockLoop size f (i + 1) (f running a) stored rest

/-- What the loop knows after the elements `seen`. -/
structure Blocks (size : Nat) (f : β → α → β) (start : β) (seen : List α) (running : β)
    (stored : List β) : Prop where
  running_eq : running = seen.foldl f start
  length_eq : stored.length = seen.length / size + 1
  get_eq : ∀ k, k ≤ seen.length / size →
    stored[k]? = some ((seen.take (k * size)).foldl f start)

variable {size : Nat} {f : β → α → β} {start running : β} {seen : List α} {stored : List β}

theorem Blocks.nil : Blocks size f start [] start [start] := by
  refine ⟨rfl, ?_, ?_⟩
  · simp
  · intro k hk
    have hzero : k = 0 := by simpa using hk
    subst hzero
    simp

/-- One more element, and the copy it completes if it completes one. -/
theorem Blocks.snoc (hsize : 0 < size) (h : Blocks size f start seen running stored) (a : α) :
    Blocks size f start (seen ++ [a]) (f running a)
      (if (seen.length + 1) % size = 0 then stored ++ [f running a] else stored) := by
  have hrun : f running a = (seen ++ [a]).foldl f start := by
    rw [List.foldl_append, ← h.running_eq]
    rfl
  have hlen : (seen ++ [a]).length = seen.length + 1 := by simp
  -- the copies below the new one are of prefixes of `seen`
  have hold : ∀ k, k ≤ seen.length / size →
      stored[k]? = some (((seen ++ [a]).take (k * size)).foldl f start) := by
    intro k hk
    have hle : k * size ≤ seen.length := (Nat.le_div_iff_mul_le hsize).mp hk
    rw [h.get_eq k hk, List.take_append_of_le_length hle]
  by_cases hfull : (seen.length + 1) % size = 0
  · have hdvd : size ∣ seen.length + 1 := Nat.dvd_of_mod_eq_zero hfull
    have hdiv : (seen.length + 1) / size = seen.length / size + 1 := by
      rw [Nat.succ_div, if_pos hdvd]
    rw [if_pos hfull]
    refine ⟨hrun, ?_, ?_⟩
    · rw [hlen, hdiv, List.length_append, h.length_eq, List.length_singleton]
    · intro k hk
      rw [hlen, hdiv] at hk
      obtain hlt | heq := Nat.lt_or_eq_of_le hk
      · rw [List.getElem?_append_left (by rw [h.length_eq]; omega)]
        exact hold k (by omega)
      · have hall : k * size = (seen ++ [a]).length := by
          rw [hlen, heq, ← hdiv]
          exact Nat.div_mul_cancel hdvd
        rw [hall, List.take_length, ← hrun, heq, ← h.length_eq]
        simp
  · have hndvd : ¬ size ∣ seen.length + 1 := fun hdvd => hfull (Nat.mod_eq_zero_of_dvd hdvd)
    have hdiv : (seen.length + 1) / size = seen.length / size := by
      rw [Nat.succ_div, if_neg hndvd]
      rfl
    rw [if_neg hfull]
    refine ⟨hrun, ?_, ?_⟩
    · rw [hlen, hdiv, h.length_eq]
    · intro k hk
      rw [hlen, hdiv] at hk
      exact hold k hk

theorem Blocks.loop (hsize : 0 < size) (xs : List α) (h : Blocks size f start seen running stored) :
    Blocks size f start (seen ++ xs) (blockLoop size f seen.length running stored xs).1
      (blockLoop size f seen.length running stored xs).2 := by
  induction xs generalizing seen running stored with
  | nil =>
    rw [List.append_nil]
    exact h
  | cons a rest ih =>
    have hnext := ih (h.snoc hsize a)
    have hlen : (seen ++ [a]).length = seen.length + 1 := by simp
    rw [List.append_assoc, List.singleton_append, hlen] at hnext
    rw [blockLoop]
    split
    next hfull =>
      rw [if_pos hfull] at hnext
      exact hnext
    next hpart =>
      rw [if_neg hpart] at hnext
      exact hnext

/-- The fold over a prefix, from the last copy stored before its end. -/
theorem Blocks.fold_prefix (h : Blocks size f start seen running stored) {n : Nat}
    (hn : n ≤ seen.length) :
    ∃ copy, stored[n / size]? = some copy ∧
      ((seen.take n).drop (n / size * size)).foldl f copy = (seen.take n).foldl f start := by
  have hle : n / size * size ≤ n := Nat.div_mul_le_self n size
  have hsplit : (seen.take (n / size * size)) ++ (seen.take n).drop (n / size * size) =
      seen.take n := by
    have htake : seen.take (n / size * size) = (seen.take n).take (n / size * size) := by
      rw [List.take_take, Nat.min_eq_left hle]
    rw [htake, List.take_append_drop]
  refine ⟨_, h.get_eq (n / size) (Nat.div_le_div_right hn), ?_⟩
  rw [← List.foldl_append, hsplit]

end Blocks

/-! ## The partition point -/

section Partition

variable {α : Type} {p : α → Bool}

/-- The binary search between two indices. -/
def search (p : α → Bool) (xs : List α) (low high : Nat) : Nat :=
  if low < high then
    if xs[(low + high) / 2]?.any p then search p xs ((low + high) / 2 + 1) high
    else search p xs low ((low + high) / 2)
  else low
termination_by high - low

/-- `slice::partition_point`. -/
def partitionPoint (p : α → Bool) (xs : List α) : Nat := search p xs 0 xs.length

theorem any_get_append {front back : List α} (hfront : ∀ a ∈ front, p a = true)
    (hback : ∀ a ∈ back, p a = false) (i : Nat) :
    (front ++ back)[i]?.any p = true ↔ i < front.length := by
  by_cases hi : i < front.length
  · rw [List.getElem?_append_left hi, List.getElem?_eq_getElem hi, Option.any_some]
    exact ⟨fun _ => hi, fun _ => hfront _ (List.getElem_mem hi)⟩
  · rw [List.getElem?_append_right (Nat.le_of_not_lt hi)]
    refine ⟨fun hany => ?_, fun hlt => absurd hlt hi⟩
    cases hget : back[i - front.length]? with
    | none =>
      rw [hget] at hany
      cases hany
    | some a =>
      rw [hget, Option.any_some, hback a (List.mem_of_getElem? hget)] at hany
      cases hany

theorem search_eq {front back : List α} (hfront : ∀ a ∈ front, p a = true)
    (hback : ∀ a ∈ back, p a = false) {low high : Nat} (hlow : low ≤ front.length)
    (hhigh : front.length ≤ high) :
    search p (front ++ back) low high = front.length := by
  induction low, high using search.induct p (front ++ back) with
  | case1 low high hlt hany ih =>
    rw [search, if_pos hlt, if_pos hany]
    rw [any_get_append hfront hback] at hany
    exact ih hany hhigh
  | case2 low high hlt hany ih =>
    rw [search, if_pos hlt, if_neg hany]
    rw [any_get_append hfront hback] at hany
    exact ih hlow (Nat.le_of_not_lt hany)
  | case3 low high hge =>
    rw [search, if_neg hge]
    omega

theorem partitionPoint_append (front back : List α) (hfront : ∀ a ∈ front, p a = true)
    (hback : ∀ a ∈ back, p a = false) : partitionPoint p (front ++ back) = front.length :=
  search_eq hfront hback (Nat.zero_le _) (by simp)

/-- A list in which nothing after a failure satisfies `p`. -/
theorem filter_append_of_pairwise {xs : List α}
    (h : xs.Pairwise fun a b => p b = true → p a = true) :
    xs.filter p ++ xs.filter (fun a => !p a) = xs := by
  induction xs with
  | nil => rfl
  | cons a rest ih =>
    obtain ⟨ha, hrest⟩ := List.pairwise_cons.mp h
    cases hp : p a with
    | true => simp [hp, ih hrest]
    | false =>
      have hnone : rest.filter p = [] := by
        rw [List.filter_eq_nil_iff]
        intro b hb hpb
        rw [ha b hb hpb] at hp
        cases hp
      have htail := ih hrest
      rw [hnone, List.nil_append] at htail
      simp [hp, hnone, htail]

theorem take_partitionPoint {xs : List α} (h : xs.Pairwise fun a b => p b = true → p a = true) :
    xs.take (partitionPoint p xs) = xs.filter p ∧ partitionPoint p xs ≤ xs.length := by
  have hsplit := filter_append_of_pairwise h
  have hpoint : partitionPoint p xs = (xs.filter p).length := by
    have heq := partitionPoint_append (xs.filter p) (xs.filter fun a => !p a)
      (fun a ha => (List.mem_filter.mp ha).2) (fun a ha => by simpa using (List.mem_filter.mp ha).2)
    rwa [hsplit] at heq
  refine ⟨?_, ?_⟩
  · rw [hpoint]
    nth_rewrite 2 [← hsplit]
    rw [List.take_left']
    rfl
  · rw [hpoint]
    exact List.length_filter_le p xs

end Partition

/-! ## Sums by key -/

section Keys

variable {κ ν : Type} [DecidableEq κ] [AddCommMonoid ν]

/-- `*map.entry(key).or_insert(0) += amount`. -/
def bump (map : κ → Option ν) (key : κ) (amount : ν) : κ → Option ν :=
  fun k => if k = key then some ((map key).getD 0 + amount) else map k

theorem bump_comm (map : κ → Option ν) (key key' : κ) (amount amount' : ν) :
    bump (bump map key amount) key' amount' = bump (bump map key' amount') key amount := by
  funext k
  simp only [bump]
  by_cases hkeys : key = key'
  · subst hkeys
    by_cases hk : k = key
    · simp only [if_pos hk, if_true, Option.getD_some, add_right_comm]
    · simp only [if_neg hk]
  · have hkeys' : ¬ key' = key := fun h => hkeys h.symm
    simp only [if_neg hkeys, if_neg hkeys']
    by_cases hk : k = key'
    · subst hk
      rw [if_pos rfl, if_neg hkeys', if_pos rfl]
    · rw [if_neg hk, if_neg hk]

/-- The entries of one map added to another. -/
def bumpAll (map : κ → Option ν) (entries : List (κ × ν)) : κ → Option ν :=
  entries.foldl (fun map entry => bump map entry.1 entry.2) map

theorem bumpAll_bump (map : κ → Option ν) (entries : List (κ × ν)) (key : κ) (amount : ν) :
    bumpAll (bump map key amount) entries = bump (bumpAll map entries) key amount := by
  induction entries generalizing map with
  | nil => rfl
  | cons entry rest ih =>
    rw [bumpAll, List.foldl_cons, bump_comm, ← bumpAll, ih]
    rfl

theorem bumpAll_comm (map : κ → Option ν) (entries entries' : List (κ × ν)) :
    bumpAll (bumpAll map entries) entries' = bumpAll (bumpAll map entries') entries := by
  induction entries generalizing map with
  | nil => rfl
  | cons entry rest ih =>
    have hleft : bumpAll map (entry :: rest) = bumpAll (bump map entry.1 entry.2) rest := rfl
    have hright : bumpAll (bumpAll map entries') (entry :: rest) =
        bumpAll (bump (bumpAll map entries') entry.1 entry.2) rest := rfl
    rw [hleft, hright, ih, bumpAll_bump]

end Keys

end Prefixes
