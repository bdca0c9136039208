import Guardian.Lib.Interleaving

/- Verifying one program among others, where what it knows is not what the
   others know. A `Discipline` has one preorder for all steps, so a fact a
   process can rely on must survive its own calls too. Here a process relies on
   what the *other* processes leave alone, and its own calls are followed one by
   one: "I have not written yet" is such a fact.

   The rules are those of `wp`, and `frame`: a fact the others leave alone and
   the program's own calls keep holds after any number of them. -/
namespace Interleaving

/-- An invariant of the world, what each process can rely on the others for,
and what every process makes sure of before a call. -/
structure Rely (Op W : Type) where
  inv : W → Prop
  rely : Nat → W → W → Prop
  ok : Nat → Op → W → Prop
  refl : ∀ {pid} w, rely pid w w
  trans : ∀ {pid a b c}, rely pid a b → rely pid b c → rely pid a c

namespace Rely
variable {Op : Type} {Res : Op → Type} {W Ch Act Req α β ε : Type}

section Rules
variable (M : Machine Op Res W Ch Act) (G : Guard Op Req W Ch Act) (D : Rely Op W)

/-- Every act, and every call of which `K` is known and that is made when it is
`ok`, keeps the invariant and what the others rely on. -/
structure Kept (K : Nat → Op → W → Prop) : Prop where
  call : ∀ {pid op ch w r w'}, K pid op w → D.ok pid op w → G.call pid op ch w = true →
    M.exec pid op ch w = some (r, w') → D.inv w → D.inv w' ∧ ∀ {q}, q ≠ pid → D.rely q w w'
  act : ∀ {a w w'}, G.act a w = true → M.act a w = some w' → D.inv w →
    D.inv w' ∧ ∀ {q}, D.rely q w w'

/-- Run from `w` among processes that keep the discipline, the program makes
only calls that are `ok`, and ends with `Q`. -/
def wp (pid : Nat) : Prog Op Res α → (α → W → Prop) → W → Prop
  | .done a, Q, w => Q a w
  | .call op k, Q, w => ∀ w₁, D.rely pid w w₁ → D.inv w₁ → D.ok pid op w₁ ∧
      ∀ ch r w₂, G.call pid op ch w₁ = true → M.exec pid op ch w₁ = some (r, w₂) → D.inv w₂ →
        wp pid (k r) Q w₂

variable {M G D} {pid : Nat} {w : W}

theorem wp_mono {p : Prog Op Res α} {Q Q' : α → W → Prop} (h : D.wp M G pid p Q w)
    (hQ : ∀ a w', Q a w' → Q' a w') : D.wp M G pid p Q' w := by
  induction p generalizing w with
  | done a => exact hQ a w h
  | call op k ih =>
    intro w₁ hle hi
    obtain ⟨hok, hk⟩ := h w₁ hle hi
    exact ⟨hok, fun ch r w₂ hg hx hi₂ => ih r (hk ch r w₂ hg hx hi₂)⟩

theorem wp_bind {p : Prog Op Res α} {f : α → Prog Op Res β} {Q : β → W → Prop}
    (h : D.wp M G pid p (fun a w' => D.wp M G pid (f a) Q w') w) :
    D.wp M G pid (p >>= f) Q w := by
  induction p generalizing w with
  | done a => exact h
  | call op k ih =>
    intro w₁ hle hi
    obtain ⟨hok, hk⟩ := h w₁ hle hi
    exact ⟨hok, fun ch r w₂ hg hx hi₂ => ih r (hk ch r w₂ hg hx hi₂)⟩

/-- The others may act before a program as well as inside it. -/
theorem wp_wait {p : Prog Op Res α} {w' : W} (hle : D.rely pid w w')
    (h : D.wp M G pid p (fun _ _ => True) w) : D.wp M G pid p (fun _ _ => True) w' := by
  cases p with
  | done a => trivial
  | call op k => exact fun w₁ hle₁ => h w₁ (D.trans hle hle₁)

variable (M G D pid) in
/-- A fact the others leave alone and the process's own calls keep; with it,
each of these calls is `ok`. -/
structure Steady (P : Op → Prop) (F : W → Prop) : Prop where
  stable : ∀ {w w'}, D.rely pid w w' → F w → F w'
  own : ∀ {op ch r w w'}, P op → G.call pid op ch w = true → M.exec pid op ch w = some (r, w') →
    D.inv w → F w → F w'
  ok : ∀ {op w}, P op → D.inv w → F w → D.ok pid op w

/-- The frame rule, with what the program returns. -/
theorem wp_frame {P : Op → Prop} {F : W → Prop} {K : α → Prop} (hF : D.Steady M G pid P F)
    {p : Prog Op Res α} (hp : p.Calls P) (hr : p.Results K) (hw : F w) :
    D.wp M G pid p (fun a w' => K a ∧ F w') w := by
  induction p generalizing w with
  | done a => exact ⟨hr, hw⟩
  | call op k ih =>
    intro w₁ hle hi
    have hw₁ := hF.stable hle hw
    refine ⟨hF.ok hp.1 hi hw₁, fun ch r w₂ hg hx _ => ih r (hp.2 r) (hr r) ?_⟩
    exact hF.own hp.1 hg hx hi hw₁

variable {body : Req → Prog Op Res Unit} {w₀ : W} {K : Nat → Op → W → Prop}

/-- Programs verified one by one keep the discipline together, in every run. -/
theorem reach (hkept : D.Kept M G K)
    (hK : ∀ {c : Conf Op Res W Req} {pid req op k}, Reach M body G w₀ c →
      c.procs pid = some (req, .call op k) → K pid op c.world) (h0 : D.inv w₀)
    (hbody : ∀ {c : Conf Op Res W Req} {pid req}, Reach M body G w₀ c → c.procs pid = none →
      G.spawn req c.world = true → D.inv c.world →
      D.wp M G pid (body req) (fun _ _ => True) c.world)
    {c : Conf Op Res W Req} (h : Reach M body G w₀ c) :
    D.inv c.world ∧ ∀ {pid req p}, c.procs pid = some (req, p) →
      D.wp M G pid p (fun _ _ => True) c.world := by
  induction h with
  | init => exact ⟨h0, fun hp => by cases hp⟩
  | step e hr hs ih =>
    obtain ⟨hinv, hprocs⟩ := ih
    obtain ⟨pid, req, hnone, hg, rfl⟩ | ⟨pid, ch, req, op, k, r, w, hp, hg, hx, rfl⟩ |
      ⟨a, w, hg, hw, rfl⟩ := step_cases hs
    · refine ⟨hinv, fun hq => ?_⟩
      have hstart := hbody hr hnone hg hinv
      obtain ⟨rfl, rfl, rfl⟩ | hq := Conf.setProc_procs hq
      · exact hstart
      · exact hprocs hq
    · obtain ⟨hok, hk⟩ := hprocs hp _ (D.refl _) hinv
      obtain ⟨hi₂, hrely⟩ := hkept.call (hK hr hp) hok hg hx hinv
      refine ⟨hi₂, fun {q _ _} hq => ?_⟩
      by_cases hqp : q = pid
      · subst hqp
        simp only [Conf.setProc, Function.update_self, Option.some.injEq, Prod.mk.injEq] at hq
        obtain ⟨_, rfl⟩ := hq
        exact hk ch r w hg hx hi₂
      · obtain ⟨rfl, _⟩ | hq := Conf.setProc_procs hq
        · exact absurd rfl hqp
        · exact wp_wait (hrely hqp) (hprocs hq)
    · obtain ⟨hi₂, hrely⟩ := hkept.act hg hw hinv
      exact ⟨hi₂, fun hq => wp_wait hrely (hprocs hq)⟩

end Rules

/-! ## Procedures that may end with an error -/

section Procedures
variable (M : Machine Op Res W Ch Act) (G : Guard Op Req W Ch Act) (D : Rely Op W) (pid : Nat)

/-- `wp` of a procedure: `Q` where it returns a value, `E` where it fails. -/
def Ensures (x : ExceptT ε (Prog Op Res) α) (Q : α → W → Prop) (E : W → Prop) (w : W) : Prop :=
  D.wp M G pid x.run (fun r w' => match r with
    | .ok a => Q a w'
    | .error _ => E w') w

namespace Ensures
variable {M G D pid} {x : ExceptT ε (Prog Op Res) α} {f : α → ExceptT ε (Prog Op Res) β} {w : W}
  {Q Q' : α → W → Prop} {R : β → W → Prop} {E : W → Prop}

theorem pure' {a : α} (h : Q a w) :
    D.Ensures M G pid (pure a : ExceptT ε (Prog Op Res) α) Q E w := h

theorem throw' (e : ε) (h : E w) :
    D.Ensures M G pid (throw e : ExceptT ε (Prog Op Res) α) Q E w := h

theorem op' {o : Op} {Q : Res o → W → Prop}
    (h : ∀ w₁, D.rely pid w w₁ → D.inv w₁ → D.ok pid o w₁ ∧
      ∀ ch r w₂, G.call pid o ch w₁ = true → M.exec pid o ch w₁ = some (r, w₂) → D.inv w₂ →
        Q r w₂) :
    D.Ensures M G pid (ExceptT.lift (Prog.op o) : ExceptT ε (Prog Op Res) _) Q E w :=
  fun w₁ hle hi => ⟨(h w₁ hle hi).1, fun ch r w₂ hg hx hi₂ => (h w₁ hle hi).2 ch r w₂ hg hx hi₂⟩

theorem bind' (h : D.Ensures M G pid x (fun a w' => D.Ensures M G pid (f a) R E w') E w) :
    D.Ensures M G pid (x >>= f) R E w := by
  refine wp_bind (wp_mono h fun r w' hr => ?_)
  cases r with
  | ok a => exact hr
  | error e => exact hr

theorem mono (h : D.Ensures M G pid x Q E w) (hQ : ∀ a w', Q a w' → Q' a w') :
    D.Ensures M G pid x Q' E w := by
  refine wp_mono h fun r w' hr => ?_
  cases r with
  | ok a => exact hQ a w' hr
  | error e => exact hr

/-- Whatever a procedure returns, the next one goes on from it. -/
theorem absorb' {ε' : Type} {E' : W → Prop} (h : D.Ensures M G pid x Q E w) :
    D.Ensures M G pid (ExceptT.lift x.run : ExceptT ε' (Prog Op Res) (Except ε α))
      (fun r w' => match r with
        | .ok a => Q a w'
        | .error _ => E w') E' w :=
  wp_bind (wp_mono h fun _ _ hr => hr)

section Frame
variable {P : Op → Prop} {F : W → Prop} (hF : D.Steady M G pid P F) (hx : Makes P x) (hw : F w)
  (hE : ∀ {w}, F w → E w)
include hF hx hw hE

/-- A part that keeps a steady fact, whatever it returns. -/
theorem frame : D.Ensures M G pid x (fun _ w' => F w') E w := by
  refine wp_mono (wp_frame hF hx Prog.Results.trivial hw) fun r w' hr => ?_
  cases r with
  | ok a => exact hr.2
  | error e => exact hE hr.2

/-- A first part that keeps a steady fact, of which it is known what it
returns. -/
theorem seq_of {K : α → Prop} (hr : Returns x K)
    (hf : ∀ a w', K a → F w' → D.Ensures M G pid (f a) R E w') :
    D.Ensures M G pid (x >>= f) R E w := by
  refine bind' (wp_mono (wp_frame hF hx hr hw) fun r w' hr => ?_)
  cases r with
  | ok a => exact hf a w' (hr.1 a rfl) hr.2
  | error e => exact hE hr.2

theorem seq (hf : ∀ a w', F w' → D.Ensures M G pid (f a) R E w') :
    D.Ensures M G pid (x >>= f) R E w :=
  bind' ((frame hF hx hw hE).mono hf)

end Frame

end Ensures

/-- The procedure makes only calls that are `ok`, from whatever world it starts,
and `Q` holds of what it returns. -/
def Gives (x : ExceptT ε (Prog Op Res) α) (Q : α → Prop) : Prop :=
  ∀ w, D.Ensures M G pid x (fun a _ => Q a) (fun _ => True) w

namespace Gives
variable {M G D pid} {x : ExceptT ε (Prog Op Res) α} {f : α → ExceptT ε (Prog Op Res) β}
  {Q Q' : α → Prop} {R : β → Prop}

theorem pure' {a : α} (h : Q a) :
    D.Gives M G pid (pure a : ExceptT ε (Prog Op Res) α) Q := fun _ => h

theorem throw' (e : ε) : D.Gives M G pid (throw e : ExceptT ε (Prog Op Res) α) Q :=
  fun _ => trivial

theorem bind' (hx : D.Gives M G pid x Q) (hf : ∀ a, Q a → D.Gives M G pid (f a) R) :
    D.Gives M G pid (x >>= f) R :=
  fun w => Ensures.bind' ((hx w).mono fun a w' ha => hf a ha w')

theorem mono (hx : D.Gives M G pid x Q) (hQ : ∀ a, Q a → Q' a) : D.Gives M G pid x Q' :=
  fun w => (hx w).mono fun a _ => hQ a

/-- A call that is `ok`, and what its answer is in a world of the invariant. -/
theorem op' {o : Op} {Q : Res o → Prop} (hok : ∀ w, D.inv w → D.ok pid o w)
    (hQ : ∀ ch w r w', D.inv w → M.exec pid o ch w = some (r, w') → Q r) :
    D.Gives M G pid (ExceptT.lift (Prog.op o) : ExceptT ε (Prog Op Res) _) Q :=
  fun _ => Ensures.op' fun w₁ _ hi =>
    ⟨hok w₁ hi, fun ch r w₂ _ hx _ => hQ ch w₁ r w₂ hi hx⟩

end Gives

/-- `wp` of a procedure whose errors say something: `E e` where it fails with
`e`. -/
def Settles (x : ExceptT ε (Prog Op Res) α) (Q : α → W → Prop) (E : ε → W → Prop) (w : W) : Prop :=
  D.wp M G pid x.run (fun r w' => match r with
    | .ok a => Q a w'
    | .error e => E e w') w

namespace Settles
variable {M G D pid} {x : ExceptT ε (Prog Op Res) α} {f : α → ExceptT ε (Prog Op Res) β} {w : W}
  {Q Q' : α → W → Prop} {R : β → W → Prop} {E : ε → W → Prop}

theorem pure' {a : α} (h : Q a w) :
    D.Settles M G pid (pure a : ExceptT ε (Prog Op Res) α) Q E w := h

theorem throw' {e : ε} (h : E e w) :
    D.Settles M G pid (throw e : ExceptT ε (Prog Op Res) α) Q E w := h

theorem op' {o : Op} {Q : Res o → W → Prop}
    (h : ∀ w₁, D.rely pid w w₁ → D.inv w₁ → D.ok pid o w₁ ∧
      ∀ ch r w₂, G.call pid o ch w₁ = true → M.exec pid o ch w₁ = some (r, w₂) → D.inv w₂ →
        Q r w₂) :
    D.Settles M G pid (ExceptT.lift (Prog.op o) : ExceptT ε (Prog Op Res) _) Q E w :=
  fun w₁ hle hi => ⟨(h w₁ hle hi).1, fun ch r w₂ hg hx hi₂ => (h w₁ hle hi).2 ch r w₂ hg hx hi₂⟩

/-- A first part, and a second that goes on from what it left. -/
theorem seq' (hx : D.Settles M G pid x Q E w)
    (hf : ∀ a w', Q a w' → D.Settles M G pid (f a) R E w') :
    D.Settles M G pid (x >>= f) R E w := by
  refine wp_bind (wp_mono hx fun r w' hr => ?_)
  cases r with
  | ok a => exact hf a w' hr
  | error e => exact hr

end Settles
end Procedures
end Rely
end Interleaving
