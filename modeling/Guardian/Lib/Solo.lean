import Guardian.Lib.Interleaving

/- One program run alone: each of its calls is executed at once, and nothing
   happens in between. The run ends with what the program returns and the world it
   leaves, or gets stuck at a call that cannot be executed. -/
namespace Interleaving

variable {Op : Type} {Res : Op → Type} {W α β ε : Type}

/-- Run alone from a world. -/
def Prog.solo (exec : (o : Op) → W → Option (Res o × W)) : Prog Op Res α → W → Option (α × W)
  | .done a, w => some (a, w)
  | .call o k, w =>
    match exec o w with
    | none => none
    | some (r, w') => Prog.solo exec (k r) w'

namespace Solo
variable {exec : (o : Op) → W → Option (Res o × W)} {w w' : W}

theorem bind {p : Prog Op Res α} {f : α → Prog Op Res β} {a : α}
    (h : p.solo exec w = some (a, w')) : (p >>= f).solo exec w = (f a).solo exec w' := by
  induction p generalizing w with
  | done b =>
    cases h
    rfl
  | call o k ih =>
    show Prog.solo exec (.call o fun r => k r >>= f) w = _
    rw [Prog.solo] at h ⊢
    cases hexec : exec o w with
    | none => rw [hexec] at h; cases h
    | some x =>
      rw [hexec] at h
      exact ih x.1 h

section Procedures
variable {x : ExceptT ε (Prog Op Res) α} {f : α → ExceptT ε (Prog Op Res) β}

theorem call_ok {o : Op} {r : Res o} (h : exec o w = some (r, w')) :
    (ExceptT.lift (Prog.op o) : ExceptT ε (Prog Op Res) (Res o)).run.solo exec w =
      some (.ok r, w') := by
  show Prog.solo exec (.call o fun r => .done (Except.ok r)) w = _
  rw [Prog.solo, h]
  rfl

theorem bind_ok {a : α} (h : x.run.solo exec w = some (.ok a, w')) :
    (x >>= f).run.solo exec w = (f a).run.solo exec w' := bind h

theorem bind_error {e : ε} (h : x.run.solo exec w = some (.error e, w')) :
    (x >>= f).run.solo exec w = some (.error e, w') := bind h

end Procedures
end Solo
end Interleaving
