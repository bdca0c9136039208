import Mathlib.Data.List.AList
import Mathlib.Order.MinMax

/- Maps that keep the largest value put under each key. The entries stand in the
   order in which the map happens to be walked. What a map holds after any number
   of values were put is said by two lemmas: it holds no less than any of them
   (`le_lookup_mergeAll`), and nothing else (`mem_of_lookup_mergeAll`). -/

/-- A finite map. -/
abbrev MaxMap (κ ν : Type) := AList (fun _ : κ => ν)

namespace MaxMap
variable {κ ν : Type} [DecidableEq κ] [LinearOrder ν]

/-- Put `v` under `k`, unless a larger value is there. -/
def merge (m : MaxMap κ ν) (k : κ) (v : ν) : MaxMap κ ν :=
  m.insert k ((m.lookup k).elim v (max · v))

theorem lookup_merge_self (m : MaxMap κ ν) (k : κ) (v : ν) :
    (m.merge k v).lookup k = some ((m.lookup k).elim v (max · v)) := AList.lookup_insert m

theorem lookup_merge_of_ne (m : MaxMap κ ν) {k k' : κ} (v : ν) (h : k' ≠ k) :
    (m.merge k v).lookup k' = m.lookup k' := AList.lookup_insert_ne h

/-- Put them one after another. -/
def mergeAll (m : MaxMap κ ν) (puts : List (κ × ν)) : MaxMap κ ν :=
  puts.foldl (fun m put => m.merge put.1 put.2) m

theorem mergeAll_append (m : MaxMap κ ν) (xs ys : List (κ × ν)) :
    m.mergeAll (xs ++ ys) = (m.mergeAll xs).mergeAll ys := List.foldl_append

/-- A value stays or grows. -/
theorem lookup_merge_le {m : MaxMap κ ν} {k : κ} {old : ν} (h : m.lookup k = some old)
    (k' : κ) (v : ν) : ∃ new, (m.merge k' v).lookup k = some new ∧ old ≤ new := by
  by_cases hk : k = k'
  · subst hk
    exact ⟨max old v, by rw [lookup_merge_self, h]; rfl, le_max_left _ _⟩
  · exact ⟨old, by rw [lookup_merge_of_ne m v hk, h], le_refl old⟩

/-- A value comes from the map or was put. -/
theorem mem_of_lookup_merge {m : MaxMap κ ν} {k k' : κ} {v new : ν}
    (h : (m.merge k' v).lookup k = some new) : m.lookup k = some new ∨ (k, new) = (k', v) := by
  by_cases hk : k = k'
  · subst hk
    rw [lookup_merge_self, Option.some.injEq] at h
    cases hold : m.lookup k with
    | none =>
      rw [hold] at h
      exact .inr (by rw [← h]; rfl)
    | some old =>
      rw [hold, Option.elim_some] at h
      rcases max_choice old v with hmax | hmax
      · exact .inl (by rw [← h, hmax])
      · exact .inr (by rw [← h, hmax])
  · exact .inl (by rwa [lookup_merge_of_ne m v hk] at h)

theorem lookup_mergeAll_le {puts : List (κ × ν)} {m : MaxMap κ ν} {k : κ} {old : ν}
    (h : m.lookup k = some old) : ∃ new, (m.mergeAll puts).lookup k = some new ∧ old ≤ new := by
  induction puts generalizing m old with
  | nil => exact ⟨old, h, le_refl old⟩
  | cons put puts ih =>
    obtain ⟨mid, hmid, hle⟩ := lookup_merge_le h put.1 put.2
    obtain ⟨new, hnew, hle'⟩ := ih hmid
    exact ⟨new, hnew, le_trans hle hle'⟩

/-- The map holds no less than what was put. -/
theorem le_lookup_mergeAll {puts : List (κ × ν)} {m : MaxMap κ ν} {k : κ} {v : ν}
    (h : (k, v) ∈ puts) : ∃ new, (m.mergeAll puts).lookup k = some new ∧ v ≤ new := by
  induction puts generalizing m with
  | nil => cases h
  | cons put puts ih =>
    rcases List.mem_cons.mp h with rfl | h
    · have hput : ∃ mid, (m.merge k v).lookup k = some mid ∧ v ≤ mid := by
        refine ⟨_, lookup_merge_self m k v, ?_⟩
        cases m.lookup k with
        | none => exact le_refl v
        | some old => exact le_max_right old v
      obtain ⟨mid, hmid, hle⟩ := hput
      obtain ⟨new, hnew, hle'⟩ := lookup_mergeAll_le hmid
      exact ⟨new, hnew, le_trans hle hle'⟩
    · exact ih h

/-- The map holds nothing else. -/
theorem mem_of_lookup_mergeAll {puts : List (κ × ν)} {m : MaxMap κ ν} {k : κ} {new : ν}
    (h : (m.mergeAll puts).lookup k = some new) : m.lookup k = some new ∨ (k, new) ∈ puts := by
  induction puts generalizing m with
  | nil => exact .inl h
  | cons put puts ih =>
    rcases ih h with h | h
    · rcases mem_of_lookup_merge h with h | h
      · exact .inl h
      · exact .inr (h ▸ List.mem_cons_self)
    · exact .inr (List.mem_cons_of_mem _ h)

/-- One value put under a key, however often, is the value the map holds. -/
theorem lookup_mergeAll_eq {puts : List (κ × ν)} {k : κ} {held : Option ν}
    (h : ∀ v, (k, v) ∈ puts ↔ held = some v) :
    ((∅ : MaxMap κ ν).mergeAll puts).lookup k = held := by
  cases held with
  | none =>
    cases hnew : ((∅ : MaxMap κ ν).mergeAll puts).lookup k with
    | none => rfl
    | some new =>
      rcases mem_of_lookup_mergeAll hnew with h' | h'
      · rw [AList.lookup_empty] at h'
        cases h'
      · exact absurd ((h new).mp h') nofun
  | some v =>
    obtain ⟨new, hnew, _⟩ := le_lookup_mergeAll (m := (∅ : MaxMap κ ν)) ((h v).mpr rfl)
    rcases mem_of_lookup_mergeAll hnew with h' | h'
    · rw [AList.lookup_empty] at h'
      cases h'
    · rw [hnew, (h new).mp h']

end MaxMap
