import Mathlib.Logic.Relation
import Guardian.Lib.History
import Guardian.Lib.Rely

/- One program in a world that others change. `Beside` runs it call by call, with
   any number of steps of its environment between two calls; the environment is a
   relation on worlds, and the history notes only what the program itself did. A
   program may stop anywhere: what holds of every state of its runs holds at a
   crash too.

   Such a property is proved with the rules of `Rely`, over the discipline
   `beside` whose `ok` asks for it before every call (`Beside.keeps`). `Completes`
   is about whole runs instead: every call can be executed, the program ends, and
   with `Q`. -/
namespace Interleaving

variable {Op : Type} {Res : Op → Type} {W Ch Act H α : Type}

section Runs
variable (M : Machine Op Res W Ch Act) (note : Note Op W Ch H) (env : W → W → Prop) (pid : Nat)

/-- What is left of `p₀`, with the world and the history it is left in. -/
inductive Beside (p₀ : Prog Op Res α) (w₀ : W) (h₀ : H) : Prog Op Res α → W → H → Prop where
  | start : Beside p₀ w₀ h₀ p₀ w₀ h₀
  | call {op : Op} {k : Res op → Prog Op Res α} {w w' : W} {h : H} {r : Res op} (ch : Ch) :
      Beside p₀ w₀ h₀ (.call op k) w h → M.exec pid op ch w = some (r, w') →
        Beside p₀ w₀ h₀ (k r) w' (note pid op ch w h)
  | other {p : Prog Op Res α} {w w' : W} {h : H} :
      Beside p₀ w₀ h₀ p w h → env w w' → Beside p₀ w₀ h₀ p w' h

/-- The next calls of a program, one for each choice. -/
def playOwn : List Ch → Prog Op Res α → W → H → Option (Prog Op Res α × W × H)
  | [], p, w, h => some (p, w, h)
  | ch :: rest, .call op k, w, h =>
    (M.exec pid op ch w).bind (fun x => playOwn rest (k x.1) x.2 (note pid op ch w h))
  | _ :: _, .done _, _, _ => none

end Runs

section Rules
variable {M : Machine Op Res W Ch Act} {note : Note Op W Ch H} {env : W → W → Prop} {pid : Nat}
  {p₀ p : Prog Op Res α} {w₀ w : W} {h₀ h : H}

theorem Beside.own {choices : List Ch} {p' : Prog Op Res α} {w' : W} {h' : H}
    (hr : Beside M note env pid p₀ w₀ h₀ p w h)
    (hplay : playOwn M note pid choices p w h = some (p', w', h')) :
    Beside M note env pid p₀ w₀ h₀ p' w' h' := by
  induction choices generalizing p w h with
  | nil =>
    cases hplay
    exact hr
  | cons ch rest ih =>
    cases p with
    | done a => cases hplay
    | call op k =>
      obtain ⟨⟨r, w₁⟩, hx, hrest⟩ := Option.bind_eq_some_iff.mp hplay
      exact ih (hr.call ch hx) hrest

/-- The environment may do any number of steps, and does not touch the history;
`I` is to hold whenever the program makes a call. -/
def beside (Op : Type) (env : W → W → Prop) (I : W → H → Prop) : Rely Op (W × H) where
  inv := fun _ => True
  rely := fun _ x y => Relation.ReflTransGen env x.1 y.1 ∧ y.2 = x.2
  ok := fun _ _ x => I x.1 x.2
  refl := fun _ => ⟨.refl, rfl⟩
  trans := fun h h' => ⟨h.1.trans h'.1, h'.2.trans h.2⟩

/-- The program is not restricted. -/
def freeGuard (Op W Ch Act H : Type) : Guard Op Unit (W × H) Ch Act := Guard.any

theorem stable_steps {I : W → H → Prop} (hstable : ∀ w w' h, env w w' → I w h → I w' h) {w' : W}
    (hsteps : Relation.ReflTransGen env w w') (hI : I w h) : I w' h := by
  induction hsteps with
  | refl => exact hI
  | tail _ hstep ih => exact hstable _ _ _ hstep ih

/-- The same with `ok` asked of each call. -/
def besideCalls (env : W → W → Prop) (ok : Op → W → H → Prop) : Rely Op (W × H) where
  inv := fun _ => True
  rely := fun _ x y => Relation.ReflTransGen env x.1 y.1 ∧ y.2 = x.2
  ok := fun _ op x => ok op x.1 x.2
  refl := fun _ => ⟨.refl, rfl⟩
  trans := fun h h' => ⟨h.1.trans h'.1, h'.2.trans h.2⟩

/-- What is left of a program is still followed, from some earlier world. -/
theorem Beside.rest_calls {ok : Op → W → H → Prop} {Q : α → W × H → Prop}
    (hwp : (besideCalls env ok).wp (M.recorded note) (freeGuard Op W Ch Act H) pid p₀ Q (w₀, h₀))
    (hr : Beside M note env pid p₀ w₀ h₀ p w h) :
    ∃ x, (besideCalls env ok).rely pid x (w, h) ∧
      (besideCalls env ok).wp (M.recorded note) (freeGuard Op W Ch Act H) pid p Q x := by
  induction hr with
  | start => exact ⟨_, ⟨.refl, rfl⟩, hwp⟩
  | @call op k w w' h r ch hr hx ih =>
    obtain ⟨x, hrely, hwp⟩ := ih
    have hx' : (M.recorded note).exec pid op ch (w, h) = some (r, (w', note pid op ch w h)) := by
      simp only [Machine.recorded, hx, Option.map_some]
    exact ⟨_, ⟨.refl, rfl⟩, (hwp (w, h) hrely trivial).2 ch r _ rfl hx' trivial⟩
  | other hr hstep ih =>
    obtain ⟨x, hrely, hwp⟩ := ih
    exact ⟨x, ⟨hrely.1.tail hstep, hrely.2⟩, hwp⟩

theorem Beside.rest {I : W → H → Prop} {Q : α → W × H → Prop}
    (hwp : (beside Op env I).wp (M.recorded note) (freeGuard Op W Ch Act H) pid p₀ Q (w₀, h₀))
    (hr : Beside M note env pid p₀ w₀ h₀ p w h) :
    ∃ x, (beside Op env I).rely pid x (w, h) ∧
      (beside Op env I).wp (M.recorded note) (freeGuard Op W Ch Act H) pid p Q x := by
  have hcalls : (besideCalls env fun _ => I).wp (M.recorded note) (freeGuard Op W Ch Act H) pid p₀ Q
      (w₀, h₀) := hwp
  exact hr.rest_calls hcalls

/-- Every call is made as asked. -/
theorem Beside.asked {ok : Op → W → H → Prop} {Q : α → W × H → Prop}
    (hwp : (besideCalls env ok).wp (M.recorded note) (freeGuard Op W Ch Act H) pid p₀ Q (w₀, h₀))
    {op : Op} {k : Res op → Prog Op Res α} (hr : Beside M note env pid p₀ w₀ h₀ (.call op k) w h) :
    ok op w h := by
  obtain ⟨x, hrely, hwp⟩ := hr.rest_calls hwp
  exact (hwp (w, h) hrely trivial).1

/-- What the environment keeps, and the program is followed with, holds in every
state. -/
theorem Beside.keeps {I : W → H → Prop} (hstable : ∀ w w' h, env w w' → I w h → I w' h)
    (hwp : (beside Op env I).wp (M.recorded note) (freeGuard Op W Ch Act H) pid p₀
      (fun _ x => I x.1 x.2) (w₀, h₀))
    (hr : Beside M note env pid p₀ w₀ h₀ p w h) : I w h := by
  obtain ⟨x, ⟨hsteps, rfl⟩, hwp⟩ := hr.rest hwp
  cases p with
  | done a => exact stable_steps hstable hsteps hwp
  | call op k => exact (hwp (w, x.2) ⟨hsteps, rfl⟩ trivial).1

/-- Where the program ends, the environment may have gone on from what it ended
with. -/
theorem Beside.ends {I : W → H → Prop} {Q : α → W × H → Prop}
    (hwp : (beside Op env I).wp (M.recorded note) (freeGuard Op W Ch Act H) pid p₀ Q (w₀, h₀))
    {a : α} (hr : Beside M note env pid p₀ w₀ h₀ (.done a) w h) :
    ∃ w', Relation.ReflTransGen env w' w ∧ Q a (w', h) := by
  obtain ⟨⟨w', h'⟩, ⟨hsteps, rfl⟩, hwp⟩ := hr.rest hwp
  exact ⟨w', hsteps, hwp⟩

end Rules

/-! ## Whole runs -/

section Complete
variable (M : Machine Op Res W Ch Act) (note : Note Op W Ch H) (env : W → W → Prop)
  (fair : Op → Ch → W → Prop) (pid : Nat)

/-- Whatever the environment does before each call, and however a call is
resolved as `fair` allows, it is executed, and the program ends with `Q`. -/
def Completes : Prog Op Res α → (α → W → H → Prop) → W → H → Prop
  | .done a, Q, w, h => Q a w h
  | .call op k, Q, w, h => ∀ w₁ ch, env w w₁ → fair op ch w₁ →
      ∃ r w₂, M.exec pid op ch w₁ = some (r, w₂) ∧ Completes (k r) Q w₂ (note pid op ch w₁ h)

variable {M note env fair pid} {β : Type} {p : Prog Op Res α} {Q Q' : α → W → H → Prop} {w : W}
  {h : H}

variable (M note pid) in
/-- A whole run, one choice for each call, where every call passes `ok`. -/
def playFair (ok : Op → Ch → W → Bool) : List Ch → Prog Op Res α → W → H → Option (α × W × H)
  | [], .done a, w, h => some (a, w, h)
  | ch :: rest, .call op k, w, h =>
    if ok op ch w then
      (M.exec pid op ch w).bind (fun x => playFair ok rest (k x.1) x.2 (note pid op ch w h))
    else none
  | _, _, _, _ => none

theorem Completes.play (hp : Completes M note env fair pid p Q w h) {ok : Op → Ch → W → Bool}
    (hok : ∀ op ch w, ok op ch w = true → env w w ∧ fair op ch w) {choices : List Ch} {a : α}
    {w' : W} {h' : H} (hplay : playFair M note pid ok choices p w h = some (a, w', h')) :
    Q a w' h' := by
  induction p generalizing choices w h with
  | done b =>
    cases choices with
    | nil =>
      cases hplay
      exact hp
    | cons ch rest => cases hplay
  | call op k ih =>
    cases choices with
    | nil => cases hplay
    | cons ch rest =>
      rw [playFair] at hplay
      split at hplay
      · rename_i htest
        obtain ⟨⟨r, w₂⟩, hx, hrest⟩ := Option.bind_eq_some_iff.mp hplay
        obtain ⟨henv, hfair⟩ := hok op ch w htest
        obtain ⟨r', w₂', hx', hk⟩ := hp w ch henv hfair
        rw [hx] at hx'
        cases hx'
        exact ih r hk hrest
      · cases hplay

theorem Completes.mono (hp : Completes M note env fair pid p Q w h)
    (hQ : ∀ a w' h', Q a w' h' → Q' a w' h') : Completes M note env fair pid p Q' w h := by
  induction p generalizing w h with
  | done a => exact hQ a w h hp
  | call op k ih =>
    intro w₁ ch henv hfair
    obtain ⟨r, w₂, hx, hk⟩ := hp w₁ ch henv hfair
    exact ⟨r, w₂, hx, ih r hk⟩

theorem Completes.bind' {f : α → Prog Op Res β} {R : β → W → H → Prop}
    (hp : Completes M note env fair pid p
      (fun a w' h' => Completes M note env fair pid (f a) R w' h') w h) :
    Completes M note env fair pid (p >>= f) R w h := by
  induction p generalizing w h with
  | done a => exact hp
  | call op k ih =>
    intro w₁ ch henv hfair
    obtain ⟨r, w₂, hx, hk⟩ := hp w₁ ch henv hfair
    exact ⟨r, w₂, hx, ih r hk⟩

end Complete
end Interleaving
