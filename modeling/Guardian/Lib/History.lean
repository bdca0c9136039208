import Guardian.Lib.Interleaving

/- Histories kept beside a run. A claim about what happened, and not only about
   the world it led to, is a claim about a history: a value that every executed
   call updates and no program reads. `Recorded` runs a machine with such a
   value; it restricts no run (`Reach.recorded`), and an invariant of world and
   history is proved as one of the world is (`Recorded.induct`). Where the
   programs have to be followed for it, `Machine.recorded` carries the history
   in the world, and what is known of programs over a machine applies. -/
namespace Interleaving

variable {Op : Type} {Res : Op → Type} {W Ch Act Req H : Type}

/-- How an executed call of a process changes the history, from the world
before it. -/
abbrev Note (Op W Ch H : Type) := Nat → Op → Ch → W → H → H

/-- What an event notes: only a call is noted. -/
def noteEvent (note : Note Op W Ch H) (c : Conf Op Res W Req) (h : H) : Event Req Ch Act → H
  | .run pid ch =>
    match c.procs pid with
    | some (_, .call op _) => note pid op ch c.world h
    | _ => h
  | _ => h

section Runs
variable (M : Machine Op Res W Ch Act) (body : Req → Prog Op Res Unit) (G : Guard Op Req W Ch Act)
  (note : Note Op W Ch H)

/-- Configurations some run from `w₀` ends in, with its history. -/
inductive Recorded (w₀ : W) (h₀ : H) : Conf Op Res W Req → H → Prop where
  | init : Recorded w₀ h₀ (Conf.start w₀) h₀
  | step {c c' : Conf Op Res W Req} {h : H} (e : Event Req Ch Act) :
      Recorded w₀ h₀ c h → step M body G c e = some c' → Recorded w₀ h₀ c' (noteEvent note c h e)

/-- The configuration and the history after a list of events. -/
def runRecorded (c : Conf Op Res W Req) (h : H) :
    List (Event Req Ch Act) → Option (Conf Op Res W Req × H)
  | [] => some (c, h)
  | e :: es => (step M body G c e).bind (fun c' => runRecorded c' (noteEvent note c h e) es)

variable {M body G note} {w₀ : W} {h₀ h h' : H} {c c' : Conf Op Res W Req}

theorem Recorded.reach (hr : Recorded M body G note w₀ h₀ c h) : Reach M body G w₀ c := by
  induction hr with
  | init => exact .init
  | step e _ hs ih => exact ih.step e hs

/-- Every run has a history. -/
theorem Reach.recorded (hr : Reach M body G w₀ c) : ∃ h, Recorded M body G note w₀ h₀ c h := by
  induction hr with
  | init => exact ⟨h₀, .init⟩
  | step e _ hs ih =>
    obtain ⟨h, ih⟩ := ih
    exact ⟨_, ih.step e hs⟩

theorem Recorded.runRecorded {es : List (Event Req Ch Act)}
    (hr : Recorded M body G note w₀ h₀ c h)
    (hrun : Interleaving.runRecorded M body G note c h es = some (c', h')) :
    Recorded M body G note w₀ h₀ c' h' := by
  induction es generalizing c h with
  | nil => cases hrun; exact hr
  | cons e es ih =>
    simp only [Interleaving.runRecorded, Option.bind_eq_some_iff] at hrun
    obtain ⟨c₁, hs, hrun⟩ := hrun
    exact ih (hr.step e hs) hrun

/-- What one recorded step can do. -/
theorem noteEvent_cases {e : Event Req Ch Act} (hs : step M body G c e = some c') :
    (noteEvent note c h e = h ∧ c'.world = c.world) ∨
    (∃ pid ch req op k r, c.procs pid = some (req, .call op k) ∧
      G.call pid op ch c.world = true ∧ M.exec pid op ch c.world = some (r, c'.world) ∧
      noteEvent note c h e = note pid op ch c.world h) ∨
    (∃ a, G.act a c.world = true ∧ M.act a c.world = some c'.world ∧ noteEvent note c h e = h) := by
  cases e with
  | spawn pid req =>
    simp only [step] at hs
    split at hs
    · cases hs
    · split at hs
      · cases hs; exact .inl ⟨rfl, rfl⟩
      · cases hs
  | run pid ch =>
    simp only [step] at hs
    split at hs
    · next req op k hp =>
      split at hs
      · next hg =>
        split at hs
        · next r w hx =>
          cases hs
          exact .inr (.inl ⟨pid, ch, req, op, k, r, hp, hg, hx, by simp [noteEvent, hp]⟩)
        · cases hs
      · cases hs
    · cases hs
  | env a =>
    simp only [step] at hs
    split at hs
    · next hg =>
      obtain ⟨w, hw, rfl⟩ := Option.map_eq_some_iff.mp hs
      exact .inr (.inr ⟨a, hg, hw, rfl⟩)
    · cases hs

/-- An invariant of world and history, kept by every act and by every call of
which `K` is known when it is made. -/
theorem Recorded.induct {K : Nat → Op → W → Prop}
    (hK : ∀ {c pid req op k}, Reach M body G w₀ c → c.procs pid = some (req, .call op k) →
      K pid op c.world)
    {I : W → H → Prop} (h0 : I w₀ h₀)
    (hcall : ∀ {pid op ch w r w' h}, K pid op w → G.call pid op ch w = true →
      M.exec pid op ch w = some (r, w') → I w h → I w' (note pid op ch w h))
    (hact : ∀ {a w w' h}, G.act a w = true → M.act a w = some w' → I w h → I w' h)
    (hr : Recorded M body G note w₀ h₀ c h) : I c.world h := by
  induction hr with
  | init => exact h0
  | step e hr hs ih =>
    obtain ⟨hn, hw⟩ | ⟨pid, ch, req, op, k, r, hp, hg, hx, hn⟩ | ⟨a, hg, hw, hn⟩ :=
      noteEvent_cases hs
    · rw [hn, hw]
      exact ih
    · rw [hn]
      exact hcall (hK hr.reach hp) hg hx ih
    · rw [hn]
      exact hact hg hw ih

end Runs

/-! ## The history in the world -/

/-- The machine whose world carries the history along. -/
def Machine.recorded (M : Machine Op Res W Ch Act) (note : Note Op W Ch H) :
    Machine Op Res (W × H) Ch Act where
  exec := fun pid op ch x =>
    (M.exec pid op ch x.1).map (fun y => (y.1, (y.2, note pid op ch x.1 x.2)))
  act := fun a x => (M.act a x.1).map (fun w => (w, x.2))

def Guard.recorded (G : Guard Op Req W Ch Act) : Guard Op Req (W × H) Ch Act where
  spawn := fun req x => G.spawn req x.1
  call := fun pid op ch x => G.call pid op ch x.1
  act := fun a x => G.act a x.1

def Conf.recorded (c : Conf Op Res W Req) (h : H) : Conf Op Res (W × H) Req :=
  ⟨(c.world, h), c.procs⟩

section Product
variable {M : Machine Op Res W Ch Act} {body : Req → Prog Op Res Unit} {G : Guard Op Req W Ch Act}
  {note : Note Op W Ch H} {w₀ : W} {h₀ h : H} {c c' : Conf Op Res W Req}

theorem recorded_exec {pid : Nat} {op : Op} {ch : Ch} {x y : W × H} {r : Res op}
    (hx : (M.recorded note).exec pid op ch x = some (r, y)) :
    M.exec pid op ch x.1 = some (r, y.1) ∧ y.2 = note pid op ch x.1 x.2 := by
  obtain ⟨⟨r', w'⟩, hw, heq⟩ := Option.map_eq_some_iff.mp hx
  cases heq
  exact ⟨hw, rfl⟩

theorem recorded_act {a : Act} {x y : W × H} (hx : (M.recorded note).act a x = some y) :
    M.act a x.1 = some y.1 ∧ y.2 = x.2 := by
  obtain ⟨w', hw, rfl⟩ := Option.map_eq_some_iff.mp hx
  exact ⟨hw, rfl⟩

theorem step_recorded {e : Event Req Ch Act} (hs : step M body G c e = some c') :
    step (M.recorded note) body G.recorded (c.recorded h) e =
      some (c'.recorded (noteEvent note c h e)) := by
  cases e with
  | spawn pid req =>
    simp only [step, Conf.recorded] at hs ⊢
    split at hs
    · cases hs
    · split at hs
      · next hg => cases hs; simp [Guard.recorded, hg, Conf.setProc, noteEvent]
      · cases hs
  | run pid ch =>
    simp only [step, Conf.recorded] at hs ⊢
    split at hs
    · next req op k hp =>
      split at hs
      · next hg =>
        split at hs
        · next r w hx =>
          cases hs
          simp [hp, Guard.recorded, hg, Machine.recorded, hx, Conf.setProc, noteEvent]
        · cases hs
      · cases hs
    · cases hs
  | env a =>
    simp only [step, Conf.recorded] at hs ⊢
    split at hs
    · next hg =>
      obtain ⟨w, hw, rfl⟩ := Option.map_eq_some_iff.mp hs
      simp [Guard.recorded, hg, Machine.recorded, hw, noteEvent]
    · cases hs

/-- A recorded run is a run of the machine that carries its history. -/
theorem Recorded.product (hr : Recorded M body G note w₀ h₀ c h) :
    Reach (M.recorded note) body G.recorded (w₀, h₀) (c.recorded h) := by
  induction hr with
  | init => exact .init
  | step e _ hs ih => exact ih.step e (step_recorded hs)

/-- What such a machine reaches, the machine does. -/
theorem Reach.unrecorded {x₀ : W × H} {d : Conf Op Res (W × H) Req}
    (hr : Reach (M.recorded note) body G.recorded x₀ d) :
    Reach M body G x₀.1 ⟨d.world.1, d.procs⟩ := by
  induction hr with
  | init => exact .init
  | @step d d' e _ hs ih =>
    refine ih.step e ?_
    cases e with
    | spawn pid req =>
      simp only [Interleaving.step] at hs ⊢
      split at hs
      · cases hs
      · split at hs
        · next hg =>
          cases hs
          have hg' : G.spawn req d.world.1 = true := hg
          simp [hg', Conf.setProc]
        · cases hs
    | run pid ch =>
      simp only [Interleaving.step] at hs ⊢
      split at hs
      · next req op k hp =>
        split at hs
        · next hg =>
          split at hs
          · next r w hx =>
            cases hs
            have hg' : G.call pid op ch d.world.1 = true := hg
            simp [hg', (recorded_exec hx).1, Conf.setProc]
          · cases hs
        · cases hs
      · cases hs
    | env a =>
      simp only [Interleaving.step] at hs ⊢
      split at hs
      · next hg =>
        obtain ⟨y, hy, rfl⟩ := Option.map_eq_some_iff.mp hs
        have hg' : G.act a d.world.1 = true := hg
        simp [hg', (recorded_act hy).1]
      · cases hs

end Product
end Interleaving
