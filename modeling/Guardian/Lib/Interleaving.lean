import Mathlib.Logic.Function.Basic

/- Interleaved runs of programs over a shared world. A program is a tree of
   calls (`Prog`): each call names an operation and continues with its answer,
   so what a program may do between two calls is exactly what it computed from
   the answers so far. A machine executes one call atomically; the choice it
   takes resolves everything the program does not decide (a failed call, the
   block a read was served at). A configuration is the world and the remaining
   program of every process. Processes are started, stepped and left alone in
   any order: one that is never stepped again has crashed.

   Three rules carry the proofs about all runs:
   1. `Reach.rest`: a property of a program that all its continuations inherit
      (such as `Calls`: every call it can make satisfies `P`) holds of what is
      left of every started program;
   2. `Reach.induct`: an invariant of the world that every act keeps, and every
      call about which enough is known, holds in every reachable configuration;
   3. `Reach.ok`: with a preorder on worlds that every step climbs, what a
      program learned stays known, so each program is verified alone with `wp`
      and what that shows of its calls holds in every interleaving. -/
namespace Interleaving

/-- A program: its result, or a call and what follows each answer. -/
inductive Prog (Op : Type) (Res : Op → Type) (α : Type) where
  | done (a : α)
  | call (op : Op) (k : Res op → Prog Op Res α)

namespace Prog
variable {Op : Type} {Res : Op → Type} {α β γ : Type}

def bind : Prog Op Res α → (α → Prog Op Res β) → Prog Op Res β
  | .done a, f => f a
  | .call op k, f => .call op (fun r => bind (k r) f)

instance : Monad (Prog Op Res) where
  pure := .done
  bind := bind

/-- One call, returning its answer. -/
def op (o : Op) : Prog Op Res (Res o) := .call o .done

@[simp] theorem pure_eq (a : α) : (pure a : Prog Op Res α) = .done a := rfl

@[simp] theorem done_bind (a : α) (f : α → Prog Op Res β) : (.done a : Prog Op Res α) >>= f = f a := rfl

@[simp] theorem call_bind (o : Op) (k : Res o → Prog Op Res α) (f : α → Prog Op Res β) :
    (.call o k : Prog Op Res α) >>= f = .call o (fun r => k r >>= f) := rfl

@[simp] theorem op_bind (o : Op) (f : Res o → Prog Op Res β) : op o >>= f = .call o f := rfl

theorem bind_assoc' (p : Prog Op Res α) (f : α → Prog Op Res β) (g : β → Prog Op Res γ) :
    p >>= f >>= g = p >>= fun a => f a >>= g := by
  induction p with
  | done a => rfl
  | call o k ih => exact congrArg (Prog.call o) (funext ih)

theorem bind_pure' (p : Prog Op Res α) : p >>= pure = p := by
  induction p with
  | done a => rfl
  | call o k ih => exact congrArg (Prog.call o) (funext ih)

instance : LawfulMonad (Prog Op Res) :=
  LawfulMonad.mk' (Prog Op Res) bind_pure' (fun _ _ => rfl) bind_assoc'

/-- The result of a program that runs alone, every call answered by `answer`. -/
def eval (answer : (o : Op) → Res o) : Prog Op Res α → α
  | .done a => a
  | .call o k => eval answer (k (answer o))

theorem eval_bind (answer : (o : Op) → Res o) (p : Prog Op Res α) (f : α → Prog Op Res β) :
    (p >>= f).eval answer = (f (p.eval answer)).eval answer := by
  induction p with
  | done a => rfl
  | call o k ih => exact ih (answer o)

/-- The calls of a program that runs alone, in order. -/
def made (answer : (o : Op) → Res o) : Prog Op Res α → List Op
  | .done _ => []
  | .call o k => o :: made answer (k (answer o))

theorem made_bind (answer : (o : Op) → Res o) (p : Prog Op Res α) (f : α → Prog Op Res β) :
    (p >>= f).made answer = p.made answer ++ (f (p.eval answer)).made answer := by
  induction p with
  | done a => rfl
  | call o k ih => exact congrArg (o :: ·) (ih (answer o))

/-- Every call the program can make, whatever the answers, satisfies `P`. -/
def Calls (P : Op → Prop) : Prog Op Res α → Prop
  | .done _ => True
  | .call o k => P o ∧ ∀ r, Calls P (k r)

namespace Calls
variable {P Q : Op → Prop}

theorem pure' (a : α) : Calls P (pure a : Prog Op Res α) := trivial

theorem op' {o : Op} (h : P o) : Calls P (op o : Prog Op Res (Res o)) := ⟨h, fun _ => trivial⟩

theorem any (p : Prog Op Res α) : Calls (fun _ => True) p := by
  induction p with
  | done a => trivial
  | call o k ih => exact ⟨trivial, ih⟩

theorem bind' {p : Prog Op Res α} {f : α → Prog Op Res β} (hp : Calls P p)
    (hf : ∀ a, Calls P (f a)) : Calls P (p >>= f) := by
  induction p with
  | done a => exact hf a
  | call o k ih => exact ⟨hp.1, fun r => ih r (hp.2 r)⟩

theorem mono {p : Prog Op Res α} (hp : Calls P p) (h : ∀ o, P o → Q o) : Calls Q p := by
  induction p with
  | done a => trivial
  | call o k ih => exact ⟨h o hp.1, fun r => ih r (hp.2 r)⟩

theorem made {p : Prog Op Res α} (hp : Calls P p) {answer : (o : Op) → Res o} {o : Op}
    (h : o ∈ p.made answer) : P o := by
  induction p with
  | done a => cases h
  | call o' k ih =>
    rcases List.mem_cons.mp h with rfl | h
    · exact hp.1
    · exact ih _ (hp.2 _) h

end Calls

/-- Every result of the program, whatever the answers, satisfies `Q`. -/
def Results (Q : α → Prop) : Prog Op Res α → Prop
  | .done a => Q a
  | .call _ k => ∀ r, Results Q (k r)

theorem Calls.bind_of {P : Op → Prop} {Q : α → Prop} {p : Prog Op Res α}
    {f : α → Prog Op Res β} (hp : Calls P p) (hr : Results Q p) (hf : ∀ a, Q a → Calls P (f a)) :
    Calls P (p >>= f) := by
  induction p with
  | done a => exact hf a hr
  | call o k ih => exact ⟨hp.1, fun r => ih r (hp.2 r) (hr r)⟩

theorem Results.bind_of {Q : α → Prop} {R : β → Prop} {p : Prog Op Res α}
    {f : α → Prog Op Res β} (hp : Results Q p) (hf : ∀ a, Q a → Results R (f a)) :
    Results R (p >>= f) := by
  induction p with
  | done a => exact hf a hp
  | call o k ih => exact fun r => ih r (hp r)

theorem Results.trivial {p : Prog Op Res α} : Results (fun _ => True) p := by
  induction p with
  | done a => exact True.intro
  | call o k ih => exact ih

end Prog

/-- How calls and environment acts change the world. A call that cannot be
executed under a choice (a lock another process holds) answers `none`. -/
structure Machine (Op : Type) (Res : Op → Type) (W Ch Act : Type) where
  exec : Nat → (op : Op) → Ch → W → Option (Res op × W)
  act : Act → W → Option W

/-- The steps a run is restricted to, as tests so that a run can be checked by
evaluation. -/
structure Guard (Op Req W Ch Act : Type) where
  spawn : Req → W → Bool
  call : Nat → Op → Ch → W → Bool
  act : Act → W → Bool

/-- No restriction. -/
def Guard.any {Op Req W Ch Act : Type} : Guard Op Req W Ch Act where
  spawn := fun _ _ => true
  call := fun _ _ _ _ => true
  act := fun _ _ => true

section Runs
variable {Op : Type} {Res : Op → Type} {W Ch Act Req : Type}

/-- The world, and each started process: what it was started for, and what is
left of its program. -/
structure Conf (Op : Type) (Res : Op → Type) (W Req : Type) where
  world : W
  procs : Nat → Option (Req × Prog Op Res Unit)

/-- Nothing has started. -/
def Conf.start (w : W) : Conf Op Res W Req := ⟨w, fun _ => none⟩

/-- The configuration with `p` left to run for process `pid`. -/
def Conf.setProc (c : Conf Op Res W Req) (pid : Nat) (req : Req) (p : Prog Op Res Unit) :
    Conf Op Res W Req := { c with procs := Function.update c.procs pid (some (req, p)) }

@[simp] theorem Conf.setProc_world (c : Conf Op Res W Req) (pid : Nat) (req : Req)
    (p : Prog Op Res Unit) : (c.setProc pid req p).world = c.world := rfl

theorem Conf.setProc_procs {c : Conf Op Res W Req} {pid q : Nat} {req req' : Req}
    {p p' : Prog Op Res Unit} (h : (c.setProc pid req p).procs q = some (req', p')) :
    (q = pid ∧ req' = req ∧ p' = p) ∨ c.procs q = some (req', p') := by
  by_cases hq : q = pid
  · subst hq
    simp only [Conf.setProc, Function.update_self, Option.some.injEq, Prod.mk.injEq] at h
    exact .inl ⟨rfl, h.1.symm, h.2.symm⟩
  · simp only [Conf.setProc, Function.update_of_ne hq] at h
    exact .inr h

/-- A process starts, makes its next call, or the environment acts. -/
inductive Event (Req Ch Act : Type) where
  | spawn (pid : Nat) (req : Req)
  | run (pid : Nat) (ch : Ch)
  | env (a : Act)

variable (M : Machine Op Res W Ch Act) (body : Req → Prog Op Res Unit)
  (G : Guard Op Req W Ch Act)

/-- One step of a run; `none` when the event cannot happen here, or the guard
does not let it. -/
def step (c : Conf Op Res W Req) : Event Req Ch Act → Option (Conf Op Res W Req)
  | .spawn pid req =>
    match c.procs pid with
    | some _ => none
    | none => if G.spawn req c.world then some (c.setProc pid req (body req)) else none
  | .run pid ch =>
    match c.procs pid with
    | some (req, .call op k) =>
      if G.call pid op ch c.world then
        match M.exec pid op ch c.world with
        | some (r, w) => some (Conf.setProc { c with world := w } pid req (k r))
        | none => none
      else none
    | _ => none
  | .env a =>
    if G.act a c.world then (M.act a c.world).map (fun w => { c with world := w }) else none

/-- Configurations some run from `w₀` ends in. -/
inductive Reach (w₀ : W) : Conf Op Res W Req → Prop where
  | init : Reach w₀ (Conf.start w₀)
  | step {c c' : Conf Op Res W Req} (e : Event Req Ch Act) :
      Reach w₀ c → step M body G c e = some c' → Reach w₀ c'

/-- The configuration after a list of events. -/
def runEvents (c : Conf Op Res W Req) : List (Event Req Ch Act) → Option (Conf Op Res W Req)
  | [] => some c
  | e :: es => (step M body G c e).bind (fun c' => runEvents c' es)

variable {M body G} {w₀ : W}

/-- What one step can do: start a process, execute the next call of one, or
act on the world. -/
theorem step_cases {c c' : Conf Op Res W Req} {e : Event Req Ch Act}
    (h : step M body G c e = some c') :
    (∃ pid req, c.procs pid = none ∧ G.spawn req c.world = true ∧
      c' = c.setProc pid req (body req)) ∨
    (∃ pid ch req op k r w, c.procs pid = some (req, .call op k) ∧
      G.call pid op ch c.world = true ∧ M.exec pid op ch c.world = some (r, w) ∧
      c' = Conf.setProc { c with world := w } pid req (k r)) ∨
    (∃ a w, G.act a c.world = true ∧ M.act a c.world = some w ∧ c' = { c with world := w }) := by
  cases e with
  | spawn pid req =>
    simp only [step] at h
    split at h
    · cases h
    · next hp =>
      split at h
      · next hg => cases h; exact .inl ⟨pid, req, hp, hg, rfl⟩
      · cases h
  | run pid ch =>
    simp only [step] at h
    split at h
    · next req op k hp =>
      split at h
      · next hg =>
        split at h
        · next r w hx => cases h; exact .inr (.inl ⟨pid, ch, req, op, k, r, w, hp, hg, hx, rfl⟩)
        · cases h
      · cases h
    · cases h
  | env a =>
    simp only [step] at h
    split at h
    · next hg =>
      obtain ⟨w, hw, rfl⟩ := Option.map_eq_some_iff.mp h
      exact .inr (.inr ⟨a, w, hg, hw, rfl⟩)
    · cases h

/-- The events of a run that succeeds end in a reachable configuration. -/
theorem Reach.runEvents {c c' : Conf Op Res W Req} {es : List (Event Req Ch Act)}
    (h : Reach M body G w₀ c) (hr : runEvents M body G c es = some c') :
    Reach M body G w₀ c' := by
  induction es generalizing c with
  | nil => cases hr; exact h
  | cons e es ih =>
    simp only [Interleaving.runEvents, Option.bind_eq_some_iff] at hr
    obtain ⟨c₁, h₁, h₂⟩ := hr
    exact ih (h.step e h₁) h₂

/-- A process after a step was there before it, or was started by it. -/
theorem spawned_of_step {c c' : Conf Op Res W Req} {e : Event Req Ch Act}
    (h : step M body G c e = some c') {pid : Nat} {req : Req} {p : Prog Op Res Unit}
    (hp : c'.procs pid = some (req, p)) :
    (∃ p', c.procs pid = some (req, p')) ∨ e = .spawn pid req := by
  cases e with
  | spawn q req' =>
    simp only [step] at h
    split at h
    · cases h
    split at h
    · cases h
      obtain ⟨rfl, rfl, rfl⟩ | hold := Conf.setProc_procs hp
      · exact .inr rfl
      · exact .inl ⟨p, hold⟩
    · cases h
  | run q ch =>
    simp only [step] at h
    split at h
    · next hq =>
      split at h
      · split at h
        · cases h
          obtain ⟨rfl, rfl, rfl⟩ | hold := Conf.setProc_procs hp
          · exact .inl ⟨_, hq⟩
          · exact .inl ⟨p, hold⟩
        · cases h
      · cases h
    · cases h
  | env a =>
    simp only [step] at h
    split at h
    · obtain ⟨w, _, rfl⟩ := Option.map_eq_some_iff.mp h
      exact .inl ⟨p, hp⟩
    · cases h

/-- A process of a run was there at its start, or was started by it. -/
theorem spawned_of_runEvents {c c' : Conf Op Res W Req} {es : List (Event Req Ch Act)}
    (h : runEvents M body G c es = some c') {pid : Nat} {req : Req} {p : Prog Op Res Unit}
    (hp : c'.procs pid = some (req, p)) :
    (∃ p', c.procs pid = some (req, p')) ∨ .spawn pid req ∈ es := by
  induction es generalizing c with
  | nil => cases h; exact .inl ⟨p, hp⟩
  | cons e es ih =>
    simp only [runEvents, Option.bind_eq_some_iff] at h
    obtain ⟨c₁, hs, hr⟩ := h
    rcases ih hr with ⟨p', hp'⟩ | hmem
    · rcases spawned_of_step hs hp' with hold | rfl
      · exact .inl hold
      · exact .inr List.mem_cons_self
    · exact .inr (.tail _ hmem)

/-- What is left of a process inherits what its program had. -/
theorem Reach.rest {Z : Req → Prog Op Res Unit → Prop}
    (hZ : ∀ {req op k}, Z req (.call op k) → ∀ r, Z req (k r))
    (hbody : ∀ req w, G.spawn req w = true → Z req (body req))
    {c : Conf Op Res W Req} (h : Reach M body G w₀ c) :
    ∀ {pid req p}, c.procs pid = some (req, p) → Z req p := by
  induction h with
  | init => intro pid req p hp; cases hp
  | step e _ hs ih =>
    intro q req' p hq
    obtain ⟨pid, req, _, hg, rfl⟩ | ⟨pid, ch, req, op, k, r, w, hp, _, _, rfl⟩ |
      ⟨a, w, _, _, rfl⟩ := step_cases hs
    · obtain ⟨rfl, rfl, rfl⟩ | hq := Conf.setProc_procs hq
      · exact hbody _ _ hg
      · exact ih hq
    · obtain ⟨rfl, rfl, rfl⟩ | hq := Conf.setProc_procs hq
      · exact hZ (ih hp) r
      · exact ih hq
    · exact ih hq

/-- The calls a process has left are calls of the program it was started
with. -/
theorem Reach.calls {P : Op → Prop} (hbody : ∀ req w, G.spawn req w = true → (body req).Calls P)
    {c : Conf Op Res W Req} (h : Reach M body G w₀ c) {pid : Nat} {req : Req} {op : Op}
    {k : Res op → Prog Op Res Unit} (hp : c.procs pid = some (req, .call op k)) : P op :=
  (h.rest (Z := fun _ p => p.Calls P) (fun h => h.2) hbody hp).1

section Induct
variable {K : Nat → Op → W → Prop}

/-- An invariant of the world kept by every act, and by every call of which
`K` is known when it is made, holds at every reachable configuration. -/
theorem Reach.induct
    (hK : ∀ {c pid req op k}, Reach M body G w₀ c → c.procs pid = some (req, .call op k) →
      K pid op c.world)
    {I : W → Prop} (h0 : I w₀)
    (hcall : ∀ {pid op ch w r w'}, K pid op w → G.call pid op ch w = true →
      M.exec pid op ch w = some (r, w') → I w → I w')
    (hact : ∀ {a w w'}, G.act a w = true → M.act a w = some w' → I w → I w')
    {c : Conf Op Res W Req} (h : Reach M body G w₀ c) : I c.world := by
  induction h with
  | init => exact h0
  | step e hr hs ih =>
    obtain ⟨pid, req, _, _, rfl⟩ | ⟨pid, ch, req, op, k, r, w, hp, hg, hx, rfl⟩ |
      ⟨a, w, hg, hw, rfl⟩ := step_cases hs
    · exact ih
    · exact hcall (hK hr hp) hg hx ih
    · exact hact hg hw ih

/-- What every step keeps holds from some configuration on along every run. -/
theorem Reach.along {P : W → Prop}
    (hcall : ∀ {c pid req op k ch r w'}, Reach M body G w₀ c →
      c.procs pid = some (req, .call op k) → G.call pid op ch c.world = true →
      M.exec pid op ch c.world = some (r, w') → P c.world → P w')
    (hact : ∀ {a w w'}, G.act a w = true → M.act a w = some w' → P w → P w')
    {c c' : Conf Op Res W Req} (h : Reach M body G w₀ c) {es : List (Event Req Ch Act)}
    (hP : P c.world) (hr : Interleaving.runEvents M body G c es = some c') : P c'.world := by
  induction es generalizing c with
  | nil => cases hr; exact hP
  | cons e es ih =>
    simp only [Interleaving.runEvents, Option.bind_eq_some_iff] at hr
    obtain ⟨c₁, hs, hr⟩ := hr
    refine ih (h.step e hs) ?_ hr
    obtain ⟨pid, req, _, _, rfl⟩ | ⟨pid, ch, req, op, k, r, w, hp, hg, hx, rfl⟩ |
      ⟨a, w, hg, hw, rfl⟩ := step_cases hs
    · exact hP
    · exact hcall h hp hg hx hP
    · exact hact hg hw hP

/-- If every step keeps `P` or establishes `Q`, then along a run `P` holds
until `Q` does. -/
theorem Reach.until
    (hK : ∀ {c pid req op k}, Reach M body G w₀ c → c.procs pid = some (req, .call op k) →
      K pid op c.world)
    {P Q : W → Prop}
    (hcall : ∀ {c pid op ch r w'}, Reach M body G w₀ c → K pid op c.world →
      M.exec pid op ch c.world = some (r, w') → P c.world → P w' ∨ Q w')
    (hact : ∀ {a w w'}, M.act a w = some w' → P w → P w')
    {c c' : Conf Op Res W Req} (h : Reach M body G w₀ c) {es : List (Event Req Ch Act)}
    (hP : P c.world) (hr : Interleaving.runEvents M body G c es = some c') :
    P c'.world ∨ ∃ es₁ es₂ c₁, es = es₁ ++ es₂ ∧
      Interleaving.runEvents M body G c es₁ = some c₁ ∧ Q c₁.world := by
  induction es generalizing c with
  | nil => cases hr; exact .inl hP
  | cons e es ih =>
    simp only [Interleaving.runEvents, Option.bind_eq_some_iff] at hr
    obtain ⟨c₁, hs, hr⟩ := hr
    have hnext : P c₁.world ∨ Q c₁.world := by
      obtain ⟨pid, req, _, _, rfl⟩ | ⟨pid, ch, req, op, k, r, w, hp, _, hx, rfl⟩ |
        ⟨a, w, _, hw, rfl⟩ := step_cases hs
      · exact .inl hP
      · exact hcall h (hK h hp) hx hP
      · exact .inl (hact hw hP)
    rcases hnext with hP₁ | hQ₁
    · rcases ih (h.step e hs) hP₁ hr with hP' | ⟨es₁, es₂, c₂, rfl, hrun, hQ⟩
      · exact .inl hP'
      · exact .inr ⟨e :: es₁, es₂, c₂, rfl, by simp [Interleaving.runEvents, hs, hrun], hQ⟩
    · exact .inr ⟨[e], es, c₁, rfl, by simp [Interleaving.runEvents, hs], hQ₁⟩

end Induct

end Runs

/-! ## Verifying one program among others -/

/-- What is proved about all runs together: an invariant of the world, a
preorder every step of every process climbs, and what every process makes sure
of before a call. A fact that survives climbing, once learned by a process, can
be used at any later point of its program. -/
structure Discipline (Op W : Type) where
  inv : W → Prop
  le : W → W → Prop
  ok : Nat → Op → W → Prop
  le_refl : ∀ w, le w w
  le_trans : ∀ {a b c}, le a b → le b c → le a c

section Wp
variable {Op : Type} {Res : Op → Type} {W Ch Act Req α β : Type}
  (M : Machine Op Res W Ch Act) (D : Discipline Op W)

/-- The discipline is kept by every act, and by every call that satisfies `P`
and is made when it is `ok`. -/
structure Discipline.Kept (P : Op → Prop) : Prop where
  call : ∀ {pid op ch w r w'}, P op → D.ok pid op w → M.exec pid op ch w = some (r, w') →
    D.inv w → D.inv w' ∧ D.le w w'
  act : ∀ {a w w'}, M.act a w = some w' → D.inv w → D.inv w' ∧ D.le w w'

/-- Run from `w` among processes that keep the discipline, the program makes
only calls that are `ok`, and ends with `Q`. Before each call the world may
climb. -/
def wp (pid : Nat) : Prog Op Res α → (α → W → Prop) → W → Prop
  | .done a, Q, w => Q a w
  | .call op k, Q, w => ∀ w₁, D.le w w₁ → D.inv w₁ → D.ok pid op w₁ ∧
      ∀ ch r w₂, M.exec pid op ch w₁ = some (r, w₂) → D.inv w₂ → D.le w₁ w₂ → wp pid (k r) Q w₂

variable {M D} {pid : Nat}

theorem wp_mono {p : Prog Op Res α} {Q Q' : α → W → Prop} {w : W} (h : wp M D pid p Q w)
    (hQ : ∀ a w', D.le w w' → Q a w' → Q' a w') : wp M D pid p Q' w := by
  induction p generalizing w with
  | done a => exact hQ a w (D.le_refl w) h
  | call op k ih =>
    intro w₁ hle hi
    obtain ⟨hok, hk⟩ := h w₁ hle hi
    refine ⟨hok, fun ch r w₂ hx hi₂ hle₂ => ih r (hk ch r w₂ hx hi₂ hle₂) ?_⟩
    exact fun a w' hw' => hQ a w' (D.le_trans hle (D.le_trans hle₂ hw'))

theorem wp_bind {p : Prog Op Res α} {f : α → Prog Op Res β} {Q : β → W → Prop} {w : W}
    (h : wp M D pid p (fun a w' => wp M D pid (f a) Q w') w) :
    wp M D pid (p >>= f) Q w := by
  induction p generalizing w with
  | done a => exact h
  | call op k ih =>
    intro w₁ hle hi
    obtain ⟨hok, hk⟩ := h w₁ hle hi
    exact ⟨hok, fun ch r w₂ hx hi₂ hle₂ => ih r (hk ch r w₂ hx hi₂ hle₂)⟩

/-- The world may climb before a program as well as inside it. -/
theorem wp_climb {p : Prog Op Res α} {Q : α → W → Prop} {w w' : W} (hle : D.le w w')
    (hQ : ∀ a w₁ w₂, D.le w₁ w₂ → Q a w₁ → Q a w₂) (h : wp M D pid p Q w) :
    wp M D pid p Q w' := by
  cases p with
  | done a => exact hQ a w w' hle h
  | call op k => exact fun w₁ hle₁ => h w₁ (D.le_trans hle hle₁)

/-- A program all of whose calls are `ok` by themselves is verified by them, and
returns what it always returns. -/
theorem wp_of_results {P : Op → Prop} {K : α → Prop} {p : Prog Op Res α} {w : W} (hp : p.Calls P)
    (hr : p.Results K) (hok : ∀ o w', P o → D.le w w' → D.ok pid o w') :
    wp M D pid p (fun a _ => K a) w := by
  induction p generalizing w with
  | done a => exact hr
  | call o k ih =>
    intro w₁ hle _
    refine ⟨hok o w₁ hp.1 hle, fun ch r w₂ _ _ hle₂ => ih r (hp.2 r) (hr r) ?_⟩
    exact fun o w' ho hw' => hok o w' ho (D.le_trans hle (D.le_trans hle₂ hw'))

theorem wp_of_calls {P : Op → Prop} {p : Prog Op Res α} {w : W} (hp : p.Calls P)
    (hok : ∀ o w', P o → D.le w w' → D.ok pid o w') : wp M D pid p (fun _ _ => True) w :=
  wp_of_results hp Prog.Results.trivial hok

variable {G : Guard Op Req W Ch Act} {body : Req → Prog Op Res Unit} {w₀ : W} {P : Op → Prop}

/-- Programs verified one by one keep the discipline together, in every run. -/
theorem Reach.wp (hkept : D.Kept M P) (hP : ∀ req w, G.spawn req w = true → (body req).Calls P)
    (h0 : D.inv w₀)
    (hbody : ∀ pid req w, G.spawn req w = true → D.inv w →
      wp M D pid (body req) (fun _ _ => True) w)
    {c : Conf Op Res W Req} (h : Reach M body G w₀ c) :
    D.inv c.world ∧ ∀ pid req p, c.procs pid = some (req, p) →
      Interleaving.wp M D pid p (fun _ _ => True) c.world := by
  induction h with
  | init => exact ⟨h0, fun pid req p hp => by cases hp⟩
  | step e hr hs ih =>
    obtain ⟨hinv, hprocs⟩ := ih
    obtain ⟨pid, req, _, hg, rfl⟩ | ⟨pid, ch, req, op, k, r, w, hp, _, hx, rfl⟩ |
      ⟨a, w, _, hw, rfl⟩ := step_cases hs
    · refine ⟨hinv, fun q req' p hq => ?_⟩
      obtain ⟨rfl, rfl, rfl⟩ | hq := Conf.setProc_procs hq
      · exact hbody _ _ _ hg hinv
      · exact hprocs q req' p hq
    · obtain ⟨hok, hk⟩ := hprocs pid req _ hp _ (D.le_refl _) hinv
      obtain ⟨hi₂, hle₂⟩ := hkept.call (hr.calls hP hp) hok hx hinv
      refine ⟨hi₂, fun q req' p hq => ?_⟩
      obtain ⟨rfl, rfl, rfl⟩ | hq := Conf.setProc_procs hq
      · exact hk ch r w hx hi₂ hle₂
      · exact wp_climb hle₂ (fun _ _ _ _ h => h) (hprocs q req' p hq)
    · obtain ⟨hi₂, hle₂⟩ := hkept.act hw hinv
      exact ⟨hi₂, fun q req' p hq => wp_climb hle₂ (fun _ _ _ _ h => h) (hprocs q req' p hq)⟩

/-- In every run, a process about to make a call has made sure of it. -/
theorem Reach.ok (hkept : D.Kept M P) (hP : ∀ req w, G.spawn req w = true → (body req).Calls P)
    (h0 : D.inv w₀)
    (hbody : ∀ pid req w, G.spawn req w = true → D.inv w →
      Interleaving.wp M D pid (body req) (fun _ _ => True) w)
    {c : Conf Op Res W Req} (h : Reach M body G w₀ c) {pid : Nat} {req : Req} {op : Op}
    {k : Res op → Prog Op Res Unit} (hp : c.procs pid = some (req, .call op k)) :
    P op ∧ D.inv c.world ∧ D.ok pid op c.world := by
  obtain ⟨hinv, hprocs⟩ := h.wp hkept hP h0 hbody
  exact ⟨h.calls hP hp, hinv, (hprocs pid req _ hp _ (D.le_refl _) hinv).1⟩

end Wp

/-! ## Procedures that may end with an error -/

section Procedures
variable {Op : Type} {Res : Op → Type} {W Ch Act ε ε' α β : Type}

/-- Every call of the procedure satisfies `P`. -/
def Makes (P : Op → Prop) (x : ExceptT ε (Prog Op Res) α) : Prop := x.run.Calls P

/-- Every value the procedure returns satisfies `Q`. -/
def Returns (x : ExceptT ε (Prog Op Res) α) (Q : α → Prop) : Prop :=
  x.run.Results (fun r => ∀ a, r = .ok a → Q a)

namespace Returns
variable {x : ExceptT ε (Prog Op Res) α} {f : α → ExceptT ε (Prog Op Res) β} {Q : α → Prop}
  {R : β → Prop}

theorem pure' {a : α} (h : Q a) : Returns (pure a : ExceptT ε (Prog Op Res) α) Q := by
  intro b hb
  cases hb
  exact h

theorem throw' (e : ε) : Returns (throw e : ExceptT ε (Prog Op Res) α) Q := by
  intro b hb
  cases hb

/-- What the first part returns does not matter. -/
theorem bind' (hf : ∀ a, Returns (f a) R) : Returns (x >>= f) R :=
  Prog.Results.bind_of (Q := fun _ => True) Prog.Results.trivial fun r _ => match r with
    | .ok a => hf a
    | .error e => throw' e

end Returns

namespace Makes
variable {P Q : Op → Prop} {x : ExceptT ε (Prog Op Res) α} {f : α → ExceptT ε (Prog Op Res) β}

theorem pure' (a : α) : Makes P (pure a : ExceptT ε (Prog Op Res) α) := trivial

theorem throw' (e : ε) : Makes P (throw e : ExceptT ε (Prog Op Res) α) := trivial

theorem op' {o : Op} (h : P o) : Makes P (ExceptT.lift (Prog.op o) : ExceptT ε (Prog Op Res) _) :=
  ⟨h, fun _ => trivial⟩

theorem bind_of {R : α → Prop} (hx : Makes P x) (hr : Returns x R)
    (hf : ∀ a, R a → Makes P (f a)) : Makes P (x >>= f) :=
  Prog.Calls.bind_of hx hr (fun r h => match r with
    | .ok a => hf a (h a rfl)
    | .error _ => trivial)

theorem bind' (hx : Makes P x) (hf : ∀ a, Makes P (f a)) : Makes P (x >>= f) :=
  Prog.Calls.bind' hx (fun r => match r with
    | .ok a => hf a
    | .error _ => trivial)

theorem absorb' (hx : Makes P x) :
    Makes P (ExceptT.lift x.run : ExceptT ε' (Prog Op Res) (Except ε α)) :=
  Prog.Calls.bind' hx (fun _ => trivial)

theorem mono (hx : Makes P x) (h : ∀ o, P o → Q o) : Makes Q x := Prog.Calls.mono hx h

end Makes

variable {M : Machine Op Res W Ch Act} {D : Discipline Op W} {pid : Nat}

/-- `wp` of a procedure: `Q` where it returns a value. -/
def Ensures (M : Machine Op Res W Ch Act) (D : Discipline Op W) (pid : Nat)
    (x : ExceptT ε (Prog Op Res) α) (Q : α → W → Prop) (w : W) : Prop :=
  wp M D pid x.run (fun r w' => ∀ a, r = .ok a → Q a w') w

namespace Ensures
variable {x : ExceptT ε (Prog Op Res) α} {f : α → ExceptT ε (Prog Op Res) β} {w : W}
  {Q Q' : α → W → Prop} {R : β → W → Prop}

theorem pure' {a : α} (h : Q a w) : Ensures M D pid (pure a : ExceptT ε (Prog Op Res) α) Q w := by
  intro b hb
  cases hb
  exact h

theorem throw' (e : ε) : Ensures M D pid (throw e : ExceptT ε (Prog Op Res) α) Q w := by
  intro b hb
  cases hb

theorem op' {o : Op} {Q : Res o → W → Prop}
    (h : ∀ w₁, D.le w w₁ → D.inv w₁ → D.ok pid o w₁ ∧
      ∀ ch r w₂, M.exec pid o ch w₁ = some (r, w₂) → D.inv w₂ → D.le w₁ w₂ → Q r w₂) :
    Ensures M D pid (ExceptT.lift (Prog.op o) : ExceptT ε (Prog Op Res) _) Q w := by
  intro w₁ hle hi
  refine ⟨(h w₁ hle hi).1, fun ch r w₂ hx hi₂ hle₂ a ha => ?_⟩
  cases ha
  exact (h w₁ hle hi).2 ch r w₂ hx hi₂ hle₂

theorem bind' (h : Ensures M D pid x (fun a w' => Ensures M D pid (f a) R w') w) :
    Ensures M D pid (x >>= f) R w := by
  refine wp_bind (wp_mono h fun r w' _ hr => ?_)
  cases r with
  | ok a => exact hr a rfl
  | error e => intro b hb; cases hb

theorem mono (h : Ensures M D pid x Q w) (hQ : ∀ a w', D.le w w' → Q a w' → Q' a w') :
    Ensures M D pid x Q' w :=
  wp_mono h fun _ w' hle hr a ha => hQ a w' hle (hr a ha)

/-- What is known before a procedure is known after it, whatever it returns. -/
theorem absorb' {F : W → Prop} (hF : ∀ w', D.le w w' → F w')
    (h : Ensures M D pid x (fun _ _ => True) w) :
    Ensures M D pid (ExceptT.lift x.run : ExceptT ε' (Prog Op Res) (Except ε α))
      (fun _ w' => F w') w := by
  refine wp_bind (wp_mono h fun r w' hle _ => ?_)
  intro b hb
  exact hF w' hle

/-- What a procedure ensures where it returns a value. -/
theorem absorb_of (h : Ensures M D pid x Q w) :
    Ensures M D pid (ExceptT.lift x.run : ExceptT ε' (Prog Op Res) (Except ε α))
      (fun r w' => ∀ a, r = .ok a → Q a w') w := by
  refine wp_bind (wp_mono h fun r w' _ hr => ?_)
  intro b hb
  cases hb
  exact hr

theorem of_makes {P : Op → Prop} {F : W → Prop} (hx : Makes P x)
    (hok : ∀ o w', P o → D.le w w' → D.ok pid o w') (hF : ∀ w', D.le w w' → F w') :
    Ensures M D pid x (fun _ w' => F w') w :=
  wp_mono (wp_of_calls hx hok) fun _ w' hle _ _ _ => hF w' hle

/-- A first part whose calls are `ok` by themselves. -/
theorem seq {P : Op → Prop} (hx : Makes P x) (hok : ∀ o w', P o → D.le w w' → D.ok pid o w')
    (hf : ∀ a w', D.le w w' → Ensures M D pid (f a) R w') : Ensures M D pid (x >>= f) R w := by
  have hall : Ensures M D pid x (fun _ w' => ∀ a, Ensures M D pid (f a) R w') w :=
    of_makes hx hok fun w' hle a => hf a w' hle
  exact bind' (hall.mono fun a _ _ h => h a)

/-- Whatever the first part does, the second is verified from any world above. -/
theorem absorb_seq {g : Except ε α → ExceptT ε' (Prog Op Res) β} {R : β → W → Prop}
    (h : Ensures M D pid x (fun _ _ => True) w)
    (hf : ∀ r w', D.le w w' → Ensures M D pid (g r) R w') :
    Ensures M D pid ((ExceptT.lift x.run : ExceptT ε' (Prog Op Res) _) >>= g) R w := by
  have hall : Ensures M D pid (ExceptT.lift x.run : ExceptT ε' (Prog Op Res) (Except ε α))
      (fun _ w' => ∀ r, Ensures M D pid (g r) R w') w :=
    absorb' (fun w' hle r => hf r w' hle) h
  exact bind' (hall.mono fun r _ _ h => h r)

end Ensures
end Procedures
end Interleaving
