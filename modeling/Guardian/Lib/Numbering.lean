import Mathlib.Data.List.Pairwise

/- Numbers issued from what is kept. Each series issues a number above every
   number of it that is still kept, and a collection may forget numbers. As long
   as a series is live, a collection forgets a number of it only below another
   one that was there, so the highest number survives every collection and no
   number of the series is issued twice (`issued_increasing`).

   The ledger is stated apart from any store: a store is shown to follow it by
   `Follows`, one lemma for each of its steps. -/
namespace Numbering

variable {S σ : Type}

/-- The numbers kept of each series, and the series that are live. -/
structure Ledger (S : Type) where
  kept : S → Nat → Prop
  live : S → Prop

/-- One step of a ledger, with the number it issues, if any. -/
inductive Step (l l' : Ledger S) : Option (S × Nat) → Prop where
  | issue {s : S} {n : Nat} (above : ∀ m, l.kept s m → m < n)
      (kept : ∀ t m, l'.kept t m ↔ l.kept t m ∨ (t = s ∧ m = n)) : Step l l' (some (s, n))
  | collect (forgets : ∀ t m, l'.kept t m → l.kept t m)
      (below : ∀ t m, l.live t → l.kept t m → ¬ l'.kept t m → ∃ n, m < n ∧ l.kept t n) :
      Step l l' none
  | keep (kept : ∀ t m, l'.kept t m ↔ l.kept t m) : Step l l' none

/-- Every issued number of the series is at most one that is kept and is the
highest kept. -/
def Tops (l : Ledger S) (s : S) (issued : Nat) : Prop :=
  ∃ top, issued ≤ top ∧ l.kept s top ∧ ∀ m, l.kept s m → m ≤ top

theorem Tops.step {l l' : Ledger S} {s : S} {issued : Nat} {label : Option (S × Nat)}
    (h : Tops l s issued) (hlive : l.live s) (hstep : Step l l' label) : Tops l' s issued := by
  obtain ⟨top, hle, hkept, hmax⟩ := h
  cases hstep with
  | @issue t n above kept =>
    by_cases hs : s = t
    · subst hs
      have hlt : top < n := above top hkept
      refine ⟨n, by omega, (kept s n).mpr (.inr ⟨rfl, rfl⟩), fun m hm => ?_⟩
      obtain hm | ⟨-, rfl⟩ := (kept s m).mp hm
      · exact Nat.le_of_lt (above m hm)
      · exact Nat.le_refl _
    · refine ⟨top, hle, (kept s top).mpr (.inl hkept), fun m hm => ?_⟩
      obtain hm | ⟨hst, -⟩ := (kept s m).mp hm
      · exact hmax m hm
      · exact absurd hst hs
  | collect forgets below =>
    -- The highest number has nothing above it, so it is not forgotten.
    have hstays : l'.kept s top := by
      by_contra hgone
      obtain ⟨n, hlt, hn⟩ := below s top hlive hkept hgone
      exact absurd (hmax n hn) (by omega)
    exact ⟨top, hle, hstays, fun m hm => hmax m (forgets s m hm)⟩
  | keep kept =>
    exact ⟨top, hle, (kept s top).mpr hkept, fun m hm => hmax m ((kept s m).mp hm)⟩

theorem Tops.of_issue {l l' : Ledger S} {s : S} {n : Nat} (hstep : Step l l' (some (s, n))) :
    Tops l' s n := by
  cases hstep with
  | issue above kept =>
    refine ⟨n, Nat.le_refl n, (kept s n).mpr (.inr ⟨rfl, rfl⟩), fun m hm => ?_⟩
    obtain hm | ⟨-, rfl⟩ := (kept s m).mp hm
    · exact Nat.le_of_lt (above m hm)
    · exact Nat.le_refl _

theorem Tops.lt_issue {l l' : Ledger S} {s : S} {issued n : Nat} (h : Tops l s issued)
    (hstep : Step l l' (some (s, n))) : issued < n := by
  obtain ⟨top, hle, hkept, -⟩ := h
  cases hstep with
  | issue above kept => exact Nat.lt_of_le_of_lt hle (above top hkept)

/-! ## Runs of a store -/

section Runs
variable [DecidableEq S] (step : σ → Option (S × Nat) → σ → Prop) (live : σ → S → Prop)

/-- The number a step issues to one series. -/
def issuedTo (s : S) : Option (S × Nat) → Option Nat
  | some (t, n) => if t = s then some n else none
  | none => none

/-- A run over which one series stays live, with the numbers issued to it in
order. -/
inductive Run (s : S) : σ → List Nat → σ → Prop where
  | nil {a : σ} (h : live a s) : Run s a [] a
  | cons {a b c : σ} {label : Option (S × Nat)} {issued : List Nat} (h : live a s)
      (first : step a label b) (rest : Run s b issued c) :
      Run s a ((issuedTo s label).toList ++ issued) c

/-- The store's steps are steps of its ledger. -/
def Follows (ledger : σ → Ledger S) : Prop :=
  ∀ (a : σ) (label : Option (S × Nat)) (b : σ), step a label b → Step (ledger a) (ledger b) label

variable {step} {ledger : σ → Ledger S} {s : S} {a b : σ} {issued : List Nat}

theorem Run.above (hfollows : Follows step ledger) {n : Nat}
    (h : Run step (fun x => (ledger x).live) s a issued b) (htops : Tops (ledger a) s n) :
    ∀ m ∈ issued, n < m := by
  induction h with
  | nil => exact fun m hm => absurd hm List.not_mem_nil
  | @cons a b c label issued hlive first rest ih =>
    have hstep := hfollows a label b first
    have hrest := ih (htops.step hlive hstep)
    intro m hm
    obtain hm | hm := List.mem_append.mp hm
    · cases label with
      | none => exact absurd hm List.not_mem_nil
      | some issue =>
        obtain ⟨t, k⟩ := issue
        by_cases hts : t = s
        · subst hts
          rw [issuedTo, if_pos rfl, Option.toList_some, List.mem_singleton] at hm
          rw [hm]
          exact htops.lt_issue hstep
        · rw [issuedTo, if_neg hts] at hm
          exact absurd hm List.not_mem_nil
    · exact hrest m hm

/-- The numbers issued to a series that stays live increase. -/
theorem issued_increasing (hfollows : Follows step ledger)
    (h : Run step (fun x => (ledger x).live) s a issued b) : issued.Pairwise (· < ·) := by
  induction h with
  | nil => exact List.Pairwise.nil
  | @cons a b c label issued hlive first rest ih =>
    cases label with
    | none => exact ih
    | some issue =>
      obtain ⟨t, n⟩ := issue
      by_cases hts : t = s
      · subst hts
        rw [issuedTo, if_pos rfl, Option.toList_some, List.singleton_append]
        exact List.pairwise_cons.mpr ⟨Run.above hfollows rest (.of_issue (hfollows _ _ _ first)), ih⟩
      · rw [issuedTo, if_neg hts]
        exact ih

end Runs

end Numbering
