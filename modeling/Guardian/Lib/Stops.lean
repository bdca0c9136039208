import Mathlib.Data.List.Basic

/- Sequences of writes that can stop after any of them. What survives a stop is
   what holds before the first write, between any two, and after the last:
   `Throughout`. -/

namespace Stops
variable {σ : Type} {P Q : σ → Prop}

/-- `P` holds before, between and after the writes. -/
def Throughout (P : σ → Prop) : List (σ → σ) → σ → Prop
  | [], s => P s
  | write :: writes, s => P s ∧ Throughout P writes (write s)

/-- The state after all writes. -/
def after (writes : List (σ → σ)) (s : σ) : σ := writes.foldl (fun s write => write s) s

@[simp] theorem after_nil (s : σ) : after [] s = s := rfl

@[simp] theorem after_cons (write : σ → σ) (writes : List (σ → σ)) (s : σ) :
    after (write :: writes) s = after writes (write s) := rfl

theorem after_append (xs ys : List (σ → σ)) (s : σ) :
    after (xs ++ ys) s = after ys (after xs s) := List.foldl_append

theorem Throughout.start {writes : List (σ → σ)} {s : σ} (h : Throughout P writes s) : P s := by
  cases writes with
  | nil => exact h
  | cons write writes => exact h.1

/-- Wherever the writes stop. -/
theorem Throughout.stopped {writes : List (σ → σ)} {s : σ} (h : Throughout P writes s) (n : Nat) :
    P (after (writes.take n) s) := by
  induction writes generalizing s n with
  | nil =>
    rw [List.take_nil]
    exact h
  | cons write writes ih =>
    cases n with
    | zero => exact h.1
    | succ n => exact ih h.2 n

theorem Throughout.finished {writes : List (σ → σ)} {s : σ} (h : Throughout P writes s) :
    P (after writes s) := by
  have hall := h.stopped writes.length
  rwa [List.take_length] at hall

theorem Throughout.mono {writes : List (σ → σ)} {s : σ} (h : Throughout P writes s)
    (hPQ : ∀ {s}, P s → Q s) : Throughout Q writes s := by
  induction writes generalizing s with
  | nil => exact hPQ h
  | cons write writes ih => exact ⟨hPQ h.1, ih h.2⟩

theorem Throughout.append {xs ys : List (σ → σ)} {s : σ} (hx : Throughout P xs s)
    (hy : Throughout P ys (after xs s)) : Throughout P (xs ++ ys) s := by
  induction xs generalizing s with
  | nil => exact hy
  | cons write xs ih => exact ⟨hx.1, ih hx.2 hy⟩

/-- What every write keeps holds throughout. -/
theorem throughout_of_kept {writes : List (σ → σ)} {s : σ}
    (h : ∀ write ∈ writes, ∀ s, P s → P (write s)) (hs : P s) : Throughout P writes s := by
  induction writes generalizing s with
  | nil => exact hs
  | cons write writes ih =>
    refine ⟨hs, ih (fun w hw => h w (.tail _ hw)) ?_⟩
    exact h write List.mem_cons_self s hs

end Stops
