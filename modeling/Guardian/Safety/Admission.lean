import Guardian.Safety.Attempts

/- What the account admits, and where that is decided. A request reads the
   lifecycle columns and the queue early, and everything it read can be stale by
   the time its storage transaction runs. Two things are shown:

   1. `no_admission_while_inactive`: whatever the request read, no step queues a
      candidate, acknowledges a delta or records evidence while the account is
      paused or released. Both admission transactions read the columns again
      under the lock every pause and release takes.
   2. `admission_paths_agree`: where nothing changes in between, the queue checks
      of a push give the verdict of the gate its transaction evaluates, on every
      queue, chained or not. -/
namespace Guardian

open Interleaving Service

/-! ## Admissions of a run -/

/-- A step admitted something: a row became a queued candidate, a client delta
was acknowledged, or an attempt got its evidence. -/
inductive World.Admits (w w' : World) : Prop where
  | candidate {r : DeltaRow} (mem : r ∈ w'.db.deltas) (queued : r.delta.status.isCandidate = true)
      (new : ∀ row ∈ w.db.deltas, row.delta.status.isCandidate = true → row.id ≠ r.id)
  | acknowledged (new : w'.ghost.acked ≠ w.ghost.acked)
  | evidence {e' : ExecutionRecord} (mem : e' ∈ w'.db.executions) (has : e'.evidence ≠ none)
      (new : ∀ e ∈ w.db.executions, e.key = e'.key → e.evidence = none)

section Step
variable {net : Network} {cfg : Config} {pid : Nat} {op : Op} {w w' : World}

theorem Queued.inService {db db' : Db} {delta : DeltaObject} (h : Queued db db' op delta) :
    db.InService := by
  cases h with
  | submitted h | admitted h => exact h.in_service

theorem Effect.acked_cases (h : Effect pid w op w') :
    w'.ghost.acked = w.ghost.acked ∨
    ∃ delta, Queued w.db w'.db op delta ∧ w'.ghost.acked = delta :: w.ghost.acked := by
  cases h with
  | submitted h => exact .inr ⟨_, .submitted h, rfl⟩
  | _ => exact .inl rfl

/-- Evidence is new only where an admission wrote it. -/
theorem Effect.evidence_queued (hi : w.db.AttemptInv) (h : Effect pid w op w')
    {e' : ExecutionRecord} (he' : e' ∈ w'.db.executions) (hev : e'.evidence ≠ none)
    (hnew : ∀ e ∈ w.db.executions, e.key = e'.key → e.evidence = none) :
    ∃ delta, Queued w.db w'.db op delta := by
  obtain he | ⟨hnone, _⟩ | ⟨e, f, he, _, htouch, rfl⟩ := h.attempt_back hi he'
  · exact absurd (hnew e' he rfl) hev
  · exact absurd hnone hev
  have hbefore : e.evidence = none := hnew e he htouch.key_eq.symm
  cases htouch with
  | renewed keeps => exact absurd ((keeps e).1.trans hbefore) hev
  | admitted call hadmitted _ _ =>
    subst call
    exact ⟨_, .admitted hadmitted⟩
  | committed | settled | failed => exact absurd hbefore hev

theorem Effect.admits_inService (hi : w.db.AttemptInv) (hfits : op.Fits net cfg)
    (h : Effect pid w op w') (ha : w.Admits w') : w.db.InService := by
  cases ha with
  | candidate hr hc hnew =>
    obtain ⟨row, hrow, hrc, hid, _⟩ | ⟨delta, hq, _⟩ := h.candidate_cases hfits hr hc
    · exact absurd hid (hnew row hrow hrc)
    · exact hq.inService
  | acknowledged hnew =>
    obtain heq | ⟨delta, hq, _⟩ := h.acked_cases
    · exact absurd heq hnew
    · exact hq.inService
  | evidence he' hev hnew =>
    obtain ⟨delta, hq⟩ := h.evidence_queued hi he' hev hnew
    exact hq.inService

end Step

/-- What does not touch the rows or the record admits nothing. -/
theorem World.Admits.changes {w w' : World} (h : w.Admits w')
    (hdb : w'.db = w.db) (hacked : w'.ghost.acked = w.ghost.acked) : False := by
  cases h with
  | candidate hr hc hnew => exact hnew _ (hdb ▸ hr) hc rfl
  | acknowledged hnew => exact hnew hacked
  | evidence he' hev hnew => exact hev (hnew _ (hdb ▸ he') rfl)

theorem ActEffect.acked {net : Network} {w w' : World} (h : ActEffect net w w') :
    w'.ghost.acked = w.ghost.acked := by
  cases h <;> rfl

/-- A step that admits a candidate, an acknowledgment or evidence starts from a
world in which the account is neither paused nor released. -/
theorem no_admission_while_inactive {net : Network} {cfg : Config} {G : RunGuard} {w₀ : World}
    (hfresh : w₀.Fresh net) {c c' : SystemConf} (hr : Reachable net cfg G w₀ c)
    {e : Event Request Choice Act}
    (hs : step (machine net) (body net cfg) G c e = some c') (ha : c.world.Admits c'.world) :
    c.world.db.InService := by
  obtain ⟨pid, req, _, _, rfl⟩ | ⟨pid, ch, req, op, k, r, w, hp, _, hx, rfl⟩ |
    ⟨a, w, _, hw, rfl⟩ := step_cases hs
  · exact (ha.changes rfl rfl).elim
  · have hfits : op.Fits net cfg := hr.calls (fun req _ _ => body_calls net cfg req) hp
    exact (exec_effect hx).2.admits_inService (.of_reachable hfresh hr) hfits ha
  · have heff := act_effect hw
    exact (ha.changes heff.db heff.acked).elim

/-- The submission of a push is such a step. -/
theorem no_admission_while_inactive_pushed :
    ∃ c c' : SystemConf, Reachable (.letters 0) Demo.config .any (Demo.world 0) c ∧
      c.world.Admits c'.world ∧ c.world.db.InService := by
  obtain ⟨c, c', hc, hs, htest⟩ := Demo.step_after 0 .any (Demo.world 0)
    (.spawn 0 (.push (Demo.delta 1 "s" "t")) :: Demo.calls 0 7 1) (.run 0 {})
    (fun c c' => decide (c'.world.ghost.acked ≠ c.world.ghost.acked)) (by decide +kernel)
  have ha : c.world.Admits c'.world := .acknowledged (of_decide_eq_true htest)
  exact ⟨c, c', hc, ha, no_admission_while_inactive (Demo.fresh_world 0) hc hs ha⟩

/-! ## What a push answers -/

/-- Acknowledged deltas stay acknowledged; nothing else is asked of a call. -/
def acknowledgments : Discipline Op World where
  inv := fun _ => True
  le := fun w w' => ∀ d ∈ w.ghost.acked, d ∈ w'.ghost.acked
  ok := fun _ _ _ => True
  le_refl := fun _ _ h => h
  le_trans := fun h h' d hd => h' d (h d hd)

theorem acknowledgments_kept (net : Network) (P : Op → Prop) :
    acknowledgments.Kept (machine net) P where
  call := by
    intro pid op ch w r w' _ _ hx _
    refine ⟨trivial, fun d hd => ?_⟩
    obtain heq | ⟨delta, _, heq⟩ := (exec_effect hx).2.acked_cases
    · exact heq ▸ hd
    · exact heq ▸ .tail _ hd
  act := fun hw _ => ⟨trivial, fun d hd => (act_effect hw).acked ▸ hd⟩

section Answers
variable {net : Network} {cfg : Config} {pid : Nat} {α β : Type} {w : World}

theorem makes_any (x : Service α) : Makes (fun _ => True) x :=
  Prog.Calls.any x.run

theorem acknowledges_after {x : Service α} {f : α → Service β} {R : β → World → Prop}
    (h : ∀ a w', Ensures (machine net) acknowledgments pid (f a) R w') :
    Ensures (machine net) acknowledgments pid (x >>= f) R w :=
  Ensures.seq (makes_any x) (fun _ _ _ _ => trivial) (fun a w' _ => h a w')

/-- The candidate a push submits: its delta, with a post commitment. -/
def Submits (delta : DeltaObject) (w : World) : Prop :=
  ∃ d ∈ w.ghost.acked, d.nonce = delta.nonce ∧ d.prevCommitment = delta.prevCommitment ∧
    d.deltaPayload = delta.deltaPayload

theorem commit_acknowledged (delta : DeltaObject) (new : Commitment) (now : Time) :
    Ensures (machine net) acknowledgments pid (pushDelta.commit cfg delta new now)
      (fun _ => Submits delta) w := by
  unfold pushDelta.commit
  refine Ensures.bind' (Ensures.bind' (Ensures.op' fun w₁ _ _ => ⟨trivial, fun ch r w₂ hx _ _ => ?_⟩))
  obtain _ | answer := r
  · exact Ensures.throw' _
  refine Ensures.pure' ?_
  cases answer with
  | submitted =>
    obtain ⟨db', _, rfl⟩ := exec_write_answer hx
    exact Ensures.pure' ⟨_, .head _, rfl, rfl, rfl⟩
  | _ => exact Ensures.throw' _

/-- A push that returns without an error was acknowledged, in every
interleaving. -/
theorem pushDelta_acknowledged (delta : DeltaObject) :
    Ensures (machine net) acknowledgments pid (pushDelta net cfg delta) (fun _ => Submits delta) w := by
  rw [pushDelta_eq]
  refine acknowledges_after fun metadata w' => ?_
  refine acknowledges_after fun flagged w' => ?_
  dsimp only
  split
  · exact Ensures.throw' _
  refine acknowledges_after fun _ w' => ?_
  refine acknowledges_after fun state w' => ?_
  refine acknowledges_after fun active w' => ?_
  split
  · exact Ensures.throw' _
  refine acknowledges_after fun checked w' => ?_
  refine acknowledges_after fun tail w' => ?_
  refine acknowledges_after fun _ w' => ?_
  refine acknowledges_after fun _ w' => ?_
  split
  · exact Ensures.throw' _
  split
  · exact Ensures.throw' _
  exact acknowledges_after fun now w' => commit_acknowledged delta _ now

end Answers

/-! ## The two deciders -/

/-- The answers of a store that holds `state` and `queue` and does not change
while a procedure reads it. -/
def unchanged (state : StateObject) (queue : List DeltaObject) (other : (o : Op) → Res o) :
    (o : Op) → Res o
  | .query .pullState => some (some state)
  | .query .pullStateHead => some (some ⟨state.commitment, state.nonce⟩)
  | .query (.pullCandidateDeltas _) => some queue
  | o => other o

/-- What a push answers where the gate says so. -/
def pushVerdict (delta : DeltaObject) (admitted : StateObject × List DeltaObject) :
    Option CandidateSubmission → Except GuardianError (StateObject × List DeltaObject)
  | none => .ok admitted
  | some (.commitmentMismatch expected) => .error (.commitmentMismatch expected delta.prevCommitment)
  | some _ => .error .conflictPendingDelta

section Deciders
variable (state : StateObject) (queue : List DeltaObject) (other : (o : Op) → Res o)

theorem eval_load : (CandidateChain.load state.commitment).run.eval (unchanged state queue other) =
    if (firstUnchainedCandidate state.commitment (queue.map .of)).isSome then
      .error .conflictPendingDelta
    else .ok queue := by
  have hread : (orFail (query (.pullCandidateDeltas false)) GuardianError.storageError).run.eval
      (unchanged state queue other) = .ok queue := rfl
  unfold CandidateChain.load
  rw [eval_run_bind, hread]
  dsimp only
  split <;> rfl

/-- Read again or not, the state is the one the caller had. -/
theorem eval_loadForAdmission (base : Commitment) :
    (CandidateChain.loadForAdmission state base).run.eval (unchanged state queue other) =
      if (firstUnchainedCandidate state.commitment (queue.map .of)).isSome then
        .error .conflictPendingDelta
      else .ok (state, queue) := by
  have hread : (orFail (query .pullStateHead) GuardianError.storageError).run.eval
      (unchanged state queue other) = .ok (some ⟨state.commitment, state.nonce⟩) := rfl
  unfold CandidateChain.loadForAdmission
  rw [eval_run_bind, eval_absorb, eval_load]
  by_cases hbroken : (firstUnchainedCandidate state.commitment (queue.map .of)).isSome
  · simp only [if_pos hbroken, decide_true, if_true]
    rw [eval_run_bind, hread]
    simp only [if_true]
    rfl
  · simp only [if_neg hbroken]
    split
    · rw [eval_run_bind, hread]
      simp only [if_true]
      rfl
    · rfl

/-- The queue checks of a push refuse with a conflict, refuse with a mismatch or
pass as the gate does. The checks find a broken queue while loading it and the
gate after counting it, but both call it a conflict, as they call a full one. -/
theorem admission_paths_agree (cfg : Config) (delta : DeltaObject) :
    (queueChecks cfg delta state).run.eval (unchanged state queue other) =
      pushVerdict delta (state, queue) (gateCandidateSubmission state.commitment (queue.map .of)
        delta cfg.candidatePolicy.maxPendingCandidates) := by
  have hdepth : max cfg.candidatePolicy.maxPendingCandidates 1 = cfg.maxPendingCandidates := by
    simp [Config.candidatePolicy, Config.maxPendingCandidates]
  have htail : (queue.map QueuedCandidate.of).getLast? = queue.getLast?.map .of :=
    List.getLast?_map
  unfold queueChecks gateCandidateSubmission
  rw [eval_run_bind, eval_loadForAdmission, hdepth, List.length_map, htail]
  by_cases hbroken : (firstUnchainedCandidate state.commitment (queue.map .of)).isSome
  · simp only [if_pos hbroken]
    split <;> rfl
  simp only [if_neg hbroken]
  by_cases hfull : queue.length ≥ cfg.maxPendingCandidates
  · simp only [if_pos hfull]
    rfl
  simp only [if_neg hfull]
  cases classifyChainPosition state.commitment (queue.map .of) delta.prevCommitment with
  | competing => rfl
  | unrelated => rfl
  | tail =>
    cases queue.getLast? with
    | none => rfl
    | some tail =>
      by_cases hnonce : delta.nonce ≤ tail.nonce
      · simp [hnonce, QueuedCandidate.of, pushVerdict]
        rfl
      · simp [hnonce, QueuedCandidate.of, pushVerdict]
        rfl

end Deciders
end Guardian
