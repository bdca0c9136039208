import Mathlib

/- Netting. An entry moves a signed amount under a key, and a list of entries
   nets to one amount for each key. `bump` adds an entry to a map of totals,
   which has each key once.

   A `Ledger` is what entries are posted to: it counts units under each key,
   from zero to a limit, and refuses an entry that would leave that range.
   Posting a list moves each key by its net (`postAll_units`); a list with each
   key once can be posted as soon as each entry can on its own
   (`postAll_of_distinct`). -/
namespace Ledger

structure Entry (K : Type) where
  key : K
  amount : Int

section Net
variable {K : Type} [DecidableEq K]

/-- What the entries move under `k`. -/
def net (l : List (Entry K)) (k : K) : Int :=
  (l.map (fun e => if e.key = k then e.amount else 0)).sum

@[simp] theorem net_nil (k : K) : net [] k = 0 := rfl

theorem net_cons (e : Entry K) (l : List (Entry K)) (k : K) :
    net (e :: l) k = (if e.key = k then e.amount else 0) + net l k := by simp [net]

theorem net_append (l l' : List (Entry K)) (k : K) : net (l ++ l') k = net l k + net l' k := by
  simp [net]

theorem net_perm {l l' : List (Entry K)} (h : l.Perm l') (k : K) : net l k = net l' k :=
  (h.map _).sum_eq

theorem net_eq_zero {l : List (Entry K)} {k : K} (h : k ∉ l.map Entry.key) : net l k = 0 := by
  induction l with
  | nil => rfl
  | cons e l ih =>
    rw [List.map_cons, List.mem_cons, not_or] at h
    rw [net_cons, if_neg (Ne.symm h.1), ih h.2, zero_add]

/-- A key that occurs once moves by its entry. -/
theorem net_of_mem {l : List (Entry K)} (hl : (l.map Entry.key).Nodup) {e : Entry K}
    (he : e ∈ l) : net l e.key = e.amount := by
  induction l with
  | nil => cases he
  | cons x l ih =>
    rw [List.map_cons, List.nodup_cons] at hl
    rw [net_cons]
    rcases List.mem_cons.mp he with rfl | he
    · rw [if_pos rfl, net_eq_zero hl.1, add_zero]
    · have hne : x.key ≠ e.key := fun h => hl.1 (h ▸ List.mem_map_of_mem he)
      rw [if_neg hne, zero_add, ih hl.2 he]

/-- Part of a list with each key once has moved a key entirely or not at all. -/
theorem net_of_append {l l' : List (Entry K)} (hl : ((l ++ l').map Entry.key).Nodup) (k : K) :
    net l k = 0 ∨ net l k = net (l ++ l') k := by
  rw [List.map_append, List.nodup_append'] at hl
  rw [net_append]
  by_cases hk : k ∈ l.map Entry.key
  · right
    rw [net_eq_zero (hl.2.2 hk), add_zero]
  · left
    exact net_eq_zero hk

theorem net_filter_ne (l : List (Entry K)) (k k' : K) :
    net (l.filter (·.key ≠ k)) k' = if k = k' then 0 else net l k' := by
  induction l with
  | nil => simp
  | cons e l ih =>
    by_cases he : e.key = k
    · rw [List.filter_cons_of_neg (by simpa using he), ih, net_cons, he]
      split
      · rfl
      · rw [zero_add]
    · rw [List.filter_cons_of_pos (by simpa using he), net_cons, net_cons, ih]
      by_cases hk : k = k'
      · rw [if_pos hk, if_pos hk, if_neg (hk ▸ he), add_zero]
      · rw [if_neg hk, if_neg hk]

/-- Add to the total of a key, which starts at zero. -/
def bump (e : Entry K) : List (Entry K) → List (Entry K)
  | [] => [e]
  | x :: m => if x.key = e.key then ⟨x.key, x.amount + e.amount⟩ :: m else x :: bump e m

theorem net_bump (e : Entry K) (m : List (Entry K)) (k : K) :
    net (bump e m) k = net m k + (if e.key = k then e.amount else 0) := by
  induction m with
  | nil => simp [bump, net]
  | cons x m ih =>
    unfold bump
    split
    · next hx =>
      rw [net_cons, net_cons, hx]
      show (if e.key = k then x.amount + e.amount else 0) + _ = _
      split
      · omega
      · omega
    · rw [net_cons, net_cons, ih, add_assoc]

theorem mem_keys_bump {e : Entry K} {m : List (Entry K)} {k : K} :
    k ∈ (bump e m).map Entry.key ↔ k = e.key ∨ k ∈ m.map Entry.key := by
  induction m with
  | nil => simp [bump]
  | cons x m ih =>
    unfold bump
    split
    · next hx => simp [hx]
    · rw [List.map_cons, List.mem_cons, ih, List.map_cons, List.mem_cons]
      tauto

theorem nodup_bump {e : Entry K} {m : List (Entry K)} (hm : (m.map Entry.key).Nodup) :
    ((bump e m).map Entry.key).Nodup := by
  induction m with
  | nil => simp [bump]
  | cons x m ih =>
    rw [List.map_cons, List.nodup_cons] at hm
    unfold bump
    split
    · exact List.nodup_cons.mpr hm
    · next hx =>
      refine List.nodup_cons.mpr ⟨fun h => ?_, ih hm.2⟩
      rcases mem_keys_bump.mp h with h | h
      · exact hx h
      · exact hm.1 h

end Net

/-! ## Posting -/

/-- What entries are posted to. `E` is how an entry is written. -/
structure Posting (V K E : Type) [DecidableEq K] where
  entry : E → Entry K
  units : V → K → Nat
  limit : K → Nat
  post : V → E → Option V
  units_le : ∀ v k, units v k ≤ limit k
  post_units : ∀ {v e v'}, post v e = some v' →
    ∀ k, (units v' k : Int) = units v k + net [entry e] k
  post_of : ∀ {v e}, 0 ≤ units v (entry e).key + (entry e).amount →
    units v (entry e).key + (entry e).amount ≤ limit (entry e).key → ∃ v', post v e = some v'

namespace Posting
variable {V K E : Type} [DecidableEq K] (P : Posting V K E)

def postAll (v : V) (l : List E) : Option V := l.foldlM P.post v

variable {P} {v v' : V}

theorem postAll_units {l : List E} (h : P.postAll v l = some v') (k : K) :
    (P.units v' k : Int) = P.units v k + net (l.map P.entry) k := by
  induction l generalizing v with
  | nil =>
    cases h
    simp
  | cons e l ih =>
    obtain ⟨v₁, h₁, h₂⟩ := Option.bind_eq_some_iff.mp h
    have hstep := P.post_units h₁ k
    rw [net_cons, net_nil, add_zero] at hstep
    rw [ih h₂, hstep, List.map_cons, net_cons, add_assoc]

/-- Entries under different keys do not get in each other's way. -/
theorem postAll_of_distinct {l : List E} (hl : ((l.map P.entry).map Entry.key).Nodup)
    (h : ∀ e ∈ l, 0 ≤ P.units v (P.entry e).key + (P.entry e).amount ∧
      P.units v (P.entry e).key + (P.entry e).amount ≤ P.limit (P.entry e).key) :
    ∃ v', P.postAll v l = some v' := by
  induction l generalizing v with
  | nil => exact ⟨v, rfl⟩
  | cons e l ih =>
    rw [List.map_cons, List.map_cons, List.nodup_cons] at hl
    obtain ⟨v₁, h₁⟩ := P.post_of (h e List.mem_cons_self).1 (h e List.mem_cons_self).2
    have hsame : ∀ x ∈ l, P.units v₁ (P.entry x).key = P.units v (P.entry x).key := by
      intro x hx
      have hne : (P.entry e).key ≠ (P.entry x).key := fun heq =>
        hl.1 (heq ▸ List.mem_map_of_mem (List.mem_map_of_mem hx))
      have hunits := P.post_units h₁ (P.entry x).key
      rw [net_cons, if_neg hne, net_nil] at hunits
      omega
    obtain ⟨v', h'⟩ := ih hl.2 fun x hx => by
      rw [hsame x hx]
      exact h x (.tail _ hx)
    exact ⟨v', Option.bind_eq_some_iff.mpr ⟨v₁, h₁, h'⟩⟩

end Posting
end Ledger
