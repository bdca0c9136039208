import Guardian.Lib.Interleaving

/- One program against answers it does not choose. Its history is the calls it
   has made, each with the answer it got. A `Contract` says which answers a call
   may get, and what must hold of the history when a call is made; `Meets`
   follows the program call by call, and a program that meets its contract makes
   every call as demanded, in every run (`Meets.demands`).

   Facts about the history are of the form "this was called and answered so",
   which longer histories inherit. -/
namespace Interleaving

/-- Calls with their answers, newest first. -/
abbrev History (Op : Type) (Res : Op → Type) := List ((o : Op) × Res o)

structure Contract (Op : Type) (Res : Op → Type) where
  allows : (o : Op) → Res o → Prop
  demands : History Op Res → Op → Prop

namespace Contract
variable {Op Op' : Type} {Res : Op → Type} {Res' : Op' → Type} {α β ε : Type}

section Rules
variable (C : Contract Op Res)

/-- After the calls of the history, `q` is left of `p`. -/
inductive After (p : Prog Op Res α) : History Op Res → Prog Op Res α → Prop where
  | start : After p [] p
  | answer {h : History Op Res} {o : Op} {k : Res o → Prog Op Res α} {r : Res o}
      (before : After p h (.call o k)) (allowed : C.allows o r) : After p (⟨o, r⟩ :: h) (k r)

/-- Run with a history, the program makes every call as demanded, and ends with
`Q`. -/
def Meets : Prog Op Res α → (α → History Op Res → Prop) → History Op Res → Prop
  | .done a, Q, h => Q a h
  | .call o k, Q, h => C.demands h o ∧ ∀ r, C.allows o r → Meets (k r) Q (⟨o, r⟩ :: h)

variable {C} {p : Prog Op Res α} {Q Q' : α → History Op Res → Prop} {h : History Op Res}

theorem Meets.mono (hp : C.Meets p Q h) (hQ : ∀ a h', Q a h' → Q' a h') : C.Meets p Q' h := by
  induction p generalizing h with
  | done a => exact hQ a h hp
  | call o k ih => exact ⟨hp.1, fun r hr => ih r (hp.2 r hr)⟩

theorem Meets.bind' {f : α → Prog Op Res β} {R : β → History Op Res → Prop}
    (hp : C.Meets p (fun a h' => C.Meets (f a) R h') h) : C.Meets (p >>= f) R h := by
  induction p generalizing h with
  | done a => exact hp
  | call o k ih => exact ⟨hp.1, fun r hr => ih r (hp.2 r hr)⟩

/-- The history only grows. -/
theorem Meets.grows (hp : C.Meets p Q h) : C.Meets p (fun a h' => Q a h' ∧ h <:+ h') h := by
  induction p generalizing h with
  | done a => exact ⟨hp, List.suffix_refl h⟩
  | call o k ih =>
    refine ⟨hp.1, fun r hr => (ih r (hp.2 r hr)).mono fun a h' hQ => ⟨hQ.1, ?_⟩⟩
    exact (List.suffix_cons _ _).trans hQ.2

/-- What is left of a program still meets its contract. -/
theorem Meets.rest (hp : C.Meets p Q []) {q : Prog Op Res α} (ha : C.After p h q) :
    C.Meets q Q h := by
  induction ha with
  | start => exact hp
  | answer _ allowed ih => exact ih.2 _ allowed

/-- Every call of every run is made as demanded. -/
theorem Meets.demands (hp : C.Meets p Q []) {o : Op} {k : Res o → Prog Op Res α}
    (ha : C.After p h (.call o k)) : C.demands h o := (hp.rest ha).1

/-- Run with the answers of `answer` up to a call that `stop` picks, at most `n`
calls: the history, and what is left. -/
def play (stop : Op → Bool) (answer : (o : Op) → Res o) : Nat → Prog Op Res α → History Op Res →
    History Op Res × Prog Op Res α
  | 0, p, h => (h, p)
  | _ + 1, .done a, h => (h, .done a)
  | n + 1, .call o k, h =>
    if stop o then (h, .call o k) else play stop answer n (k (answer o)) (⟨o, answer o⟩ :: h)

theorem After.play {stop : Op → Bool} {answer : (o : Op) → Res o}
    (hok : ∀ o, C.allows o (answer o)) (n : Nat) {q : Prog Op Res α} (ha : C.After p h q) :
    C.After p (play stop answer n q h).1 (play stop answer n q h).2 := by
  induction n generalizing q h with
  | zero => exact ha
  | succ n ih =>
    cases q with
    | done a => exact ha
    | call o k =>
      unfold Contract.play
      split
      · exact ha
      · exact ih (ha.answer (hok o))

end Rules

/-! ## Procedures that may end with an error -/

section Procedures
variable (C : Contract Op Res)

/-- The procedure meets the contract, and where it returns a value, `Q` holds
of it. -/
def Returns (x : ExceptT ε (Prog Op Res) α) (Q : α → History Op Res → Prop)
    (h : History Op Res) : Prop :=
  C.Meets x.run (fun r h' => ∀ a, r = .ok a → Q a h') h

variable {C} {x : ExceptT ε (Prog Op Res) α} {f : α → ExceptT ε (Prog Op Res) β}
  {Q Q' : α → History Op Res → Prop} {R : β → History Op Res → Prop} {h : History Op Res}

namespace Returns

theorem pure' {a : α} (ha : Q a h) : C.Returns (pure a : ExceptT ε (Prog Op Res) α) Q h := by
  rintro _ ⟨⟩
  exact ha

theorem throw' (e : ε) : C.Returns (throw e : ExceptT ε (Prog Op Res) α) Q h := by
  rintro _ ⟨⟩

theorem op' {o : Op} {Q : Res o → History Op Res → Prop} (hd : C.demands h o)
    (hQ : ∀ r, C.allows o r → Q r (⟨o, r⟩ :: h)) :
    C.Returns (ExceptT.lift (Prog.op o) : ExceptT ε (Prog Op Res) _) Q h := by
  refine ⟨hd, fun r hr => ?_⟩
  rintro _ ⟨⟩
  exact hQ r hr

theorem bind' (hx : C.Returns x (fun a h' => C.Returns (f a) R h') h) :
    C.Returns (x >>= f) R h := by
  refine Meets.bind' (Meets.mono hx fun r h' hr => ?_)
  cases r with
  | ok a => exact hr a rfl
  | error e => rintro _ ⟨⟩

theorem mono (hx : C.Returns x Q h) (hQ : ∀ a h', Q a h' → Q' a h') : C.Returns x Q' h :=
  Meets.mono hx fun _ h' hr a ha => hQ a h' (hr a ha)

/-- A first part, and a second that goes on from what it returned with a longer
history. -/
theorem seq (hx : C.Returns x Q h)
    (hf : ∀ a h', h <:+ h' → Q a h' → C.Returns (f a) R h') : C.Returns (x >>= f) R h := by
  refine bind' (Meets.mono (Meets.grows hx) fun r h' hr a ha => ?_)
  exact hf a h' hr.2 (hr.1 a ha)

/-- Whatever a procedure ends with, the next one goes on from it. -/
theorem absorb' {ε' : Type} (hx : C.Returns x Q h) :
    C.Returns (ExceptT.lift x.run : ExceptT ε' (Prog Op Res) (Except ε α))
      (fun r h' => ∀ a, r = .ok a → Q a h') h := by
  refine Meets.bind' (Meets.mono hx fun r h' hr => ?_)
  rintro _ ⟨⟩
  exact hr

end Returns
end Procedures

/-! ## Programs over fewer calls -/

/-- A program over other calls, as one over these. -/
def embed (i : Op' → Op) (answer : ∀ o, Res (i o) → Res' o) : Prog Op' Res' α → Prog Op Res α
  | .done a => .done a
  | .call o k => .call (i o) (fun r => embed i answer (k (answer o r)))

/-- Calls of which nothing is demanded only make the history longer. -/
theorem Meets.embed {C : Contract Op Res} {i : Op' → Op} {answer : ∀ o, Res (i o) → Res' o}
    (hfree : ∀ h o, C.demands h (i o)) {p : Prog Op' Res' α} {Q : α → History Op Res → Prop}
    {h : History Op Res} (hQ : ∀ a h', h <:+ h' → Q a h') :
    C.Meets (embed i answer p) Q h := by
  induction p generalizing h with
  | done a => exact hQ a h (List.suffix_refl h)
  | call o k ih =>
    refine ⟨hfree h o, fun r _ => ih _ fun a h' hs => hQ a h' ?_⟩
    exact (List.suffix_cons _ _).trans hs

end Contract
end Interleaving
