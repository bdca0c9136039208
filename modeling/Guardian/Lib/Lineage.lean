import Mathlib.Logic.Relation
import Mathlib.Data.List.Chain

/- Lineages: a step relation in which every point has at most one parent and a
   rank that steps raise, so no point is its own ancestor. A history is a list
   of points, newest first, each the parent of the one before it. The lemma the
   development rests on is `mem_of_between`: a point that descends from a point
   of a history and is an ancestor of another one is itself in the history. -/

/-- Single-parent, ranked steps. -/
structure Lineage (α : Type) where
  step : α → α → Prop
  rank : α → Nat
  rank_lt : ∀ {a b}, step a b → rank a < rank b
  parent_unique : ∀ {a b c}, step a c → step b c → a = b

namespace Lineage
variable {α : Type} (L : Lineage α)

/-- `a` is `b` or an ancestor of it. -/
def Reaches : α → α → Prop := Relation.ReflTransGen L.step

variable {L} {a b c x y : α}

theorem Reaches.refl (a : α) : L.Reaches a a := Relation.ReflTransGen.refl

theorem Reaches.of_step (h : L.step a b) : L.Reaches a b := Relation.ReflTransGen.single h

theorem Reaches.trans (h₁ : L.Reaches a b) (h₂ : L.Reaches b c) : L.Reaches a c :=
  Relation.ReflTransGen.trans h₁ h₂

theorem Reaches.rank_le (h : L.Reaches a b) : L.rank a ≤ L.rank b := by
  induction h with
  | refl => exact le_refl _
  | tail _ hs ih => exact ih.trans (L.rank_lt hs).le

/-- Ranks tell ancestors apart. -/
theorem Reaches.eq_of_rank (h : L.Reaches a b) (hr : L.rank b ≤ L.rank a) : a = b := by
  rcases Relation.ReflTransGen.cases_tail h with heq | ⟨m, hm, hs⟩
  · exact heq.symm
  · have h₁ : L.rank a ≤ L.rank m := Reaches.rank_le hm
    have h₂ := L.rank_lt hs
    omega

/-- A history, newest first: each point is a step from the next. -/
def History (l : List α) : Prop := l.IsChain (fun newer older => L.step older newer)

theorem History.tail {l : List α} (h : L.History (a :: l)) : L.History l := List.IsChain.tail h

/-- The newest point descends from every point of the history. -/
theorem History.reaches_head {l : List α} (h : L.History (a :: l)) (hx : x ∈ a :: l) :
    L.Reaches x a := by
  induction l generalizing a with
  | nil => rw [List.mem_singleton.mp hx]; exact .refl a
  | cons b l ih =>
    have hs : L.step b a := (List.isChain_cons_cons.mp h).1
    rcases List.mem_cons.mp hx with rfl | hx'
    · exact .refl x
    · exact (ih (List.isChain_cons_cons.mp h).2 hx').trans (.of_step hs)

/-- A point between two points of a history is in the history. -/
theorem mem_of_between {l : List α} (h : L.History l) (hx : x ∈ l) (hy : y ∈ l)
    (hxc : L.Reaches x c) (hcy : L.Reaches c y) : c ∈ l := by
  induction l generalizing y with
  | nil => cases hx
  | cons a l ih =>
    rcases List.mem_cons.mp hy with rfl | hy'
    · -- the upper point is the newest: walk one step down on both sides
      rcases Relation.ReflTransGen.cases_tail hcy with heq | ⟨m, hcm, hmy⟩
      · rw [← heq]; exact List.mem_cons_self
      · cases l with
        | nil =>
          rw [List.mem_singleton.mp hx] at hxc
          have h₁ := Reaches.rank_le (hxc.trans hcm)
          have h₂ := L.rank_lt hmy
          omega
        | cons b l =>
          obtain ⟨hba, hl⟩ := List.isChain_cons_cons.mp h
          obtain rfl := L.parent_unique hmy hba
          rcases List.mem_cons.mp hx with rfl | hx'
          · have h₁ := Reaches.rank_le (hxc.trans hcm)
            have h₂ := L.rank_lt hmy
            omega
          · exact .tail _ (ih hl hx' List.mem_cons_self hcm)
    · rcases List.mem_cons.mp hx with rfl | hx'
      · -- the lower point is the newest, so all three are one point
        have h₁ := Reaches.rank_le (hxc.trans hcy)
        have h₂ := (h.reaches_head (.tail _ hy')).eq_of_rank h₁
        subst h₂
        rw [← hxc.eq_of_rank hcy.rank_le]
        exact List.mem_cons_self
      · exact .tail _ (ih h.tail hx' hy' hcy)

/-- Ancestors of one point are ancestors of each other. -/
theorem Reaches.comparable (ha : L.Reaches a c) (hb : L.Reaches b c) :
    L.Reaches a b ∨ L.Reaches b a := by
  induction ha with
  | refl => exact .inr hb
  | tail ham hmc ih =>
    rcases Relation.ReflTransGen.cases_tail hb with heq | ⟨m', hbm', hm'c⟩
    · subst heq; exact .inl (ham.tail hmc)
    · obtain rfl := L.parent_unique hmc hm'c
      exact ih hbm'

end Lineage
