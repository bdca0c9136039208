import Guardian.Safety.PathPromotion

/- When the full pass gives up a candidate as orphaned.

   The pass reads the stored state again for every candidate after the head, and the
   row of its predecessor where that is what it waits for. A candidate is given up in
   two ways: by a verdict of its own, when it builds on the stored state as it was
   read last, or as an orphan. `Orphaned` says what the pass has seen in the second
   case, call by call, with the world each call was made in; between the calls others
   may promote, park, push or re-onboard at will.

   What the pass does not look at is whether the parking of an orphan went through:
   everything behind it is given up too, also where the orphan is still queued. -/
namespace Guardian

open Interleaving Service Processor

/-! ## What a pass has seen -/

/-- The calls of a pass with the world of each, newest first. -/
abbrev PassLog := List (Op × World)

def noteCall : Note Op World Choice PassLog := fun _ op _ w log => (op, w) :: log

def Op.readsState : Op → Bool
  | .query .pullState => true
  | _ => false

/-- The worlds the stored state was read in, newest first. -/
def stateReads (log : PassLog) : List World := (log.filter (·.1.readsState)).map (·.2)

/-- A candidate is queued under the nonce. -/
def World.queued (w : World) (nonce : Nonce) : Bool :=
  (w.db.rowAt nonce).any (·.delta.status.isCandidate)

/-- As last read, the stored state is the base of the delta. -/
def Anchored (log : PassLog) (delta : DeltaObject) : Prop :=
  ∃ w reads, stateReads log = w :: reads ∧ w.stored = some delta.prevCommitment

/-- As last read, the stored state is another one. -/
def Away (log : PassLog) (delta : DeltaObject) : Prop :=
  ∃ w reads stored, stateReads log = w :: reads ∧ w.stored = some stored ∧
    stored ≠ delta.prevCommitment

/-- It was the base of the delta in the read before. -/
def WasAnchored (log : PassLog) (delta : DeltaObject) : Prop :=
  ∃ w w' reads, stateReads log = w :: w' :: reads ∧ w'.stored = some delta.prevCommitment

/-- Since the last read of the stored state, the row was read, and no candidate was
queued under its nonce. -/
def HasLeft (log : PassLog) (nonce : Nonce) : Prop :=
  ∃ newer w older, log = newer ++ (.query (.pullDelta nonce), w) :: older ∧
    stateReads newer = [] ∧ w.queued nonce = false

/-- What the pass has seen of an orphan with `earlier` before it, nearest first: the
stored state is not its base, and it is the head or was about to be verified, or its
predecessor does not lead to its base, is an orphan itself, or has left the queue. -/
inductive Orphaned : PassLog → List DeltaObject → DeltaObject → Prop
  | own {log earlier delta} : Away log delta → earlier = [] ∨ WasAnchored log delta →
      Orphaned log earlier delta
  | unlinked {log earlier delta p} : Away log delta → p.newCommitment ≠ some delta.prevCommitment →
      Orphaned log (p :: earlier) delta
  | behind {log log' earlier delta p} : Away log delta → log' <:+ log → Orphaned log' earlier p →
      Orphaned log (p :: earlier) delta
  | left {log earlier delta p} : Away log delta → HasLeft log p.nonce →
      Orphaned log (p :: earlier) delta

/-- The call takes `delta` out of the queue without promoting it. -/
def Op.GivesUp (delta : DeltaObject) : Op → Prop
  | .commit (.updateCandidateStatus _ status d) => d = delta ∧ status.isCandidate = false
  | .commit (.discardCandidate _ _ d) => d = delta
  | _ => False

/-- The call parks its candidate as orphaned. -/
def Op.parksOrphan : Op → Bool
  | .commit (.updateCandidateStatus _ (.retained _ (some .orphaned)) _) => true
  | _ => false

/-- What the pass has seen when it gives up a candidate of `queue`. -/
def Justified (queue : List DeltaObject) (op : Op) (log : PassLog) : Prop :=
  ∀ d, op.GivesUp d → ∃ earlier delta later, queue = earlier.reverse ++ delta :: later ∧
    Carries d delta ∧ (op.parksOrphan = false ∧ Anchored log delta ∨ Orphaned log earlier delta)

section Log
variable {log : PassLog} {op : Op} {w : World} {delta : DeltaObject} {earlier : List DeltaObject}

theorem stateReads_cons (h : op.readsState = false) : stateReads ((op, w) :: log) = stateReads log := by
  rw [stateReads, List.filter_cons_of_neg (by simpa using h), stateReads]

theorem stateReads_read : stateReads ((.query .pullState, w) :: log) = w :: stateReads log := rfl

theorem Anchored.later (h : Anchored log delta) (hop : op.readsState = false) :
    Anchored ((op, w) :: log) delta := by
  rw [Anchored, stateReads_cons hop]
  exact h

theorem Away.later (h : Away log delta) (hop : op.readsState = false) :
    Away ((op, w) :: log) delta := by
  rw [Away, stateReads_cons hop]
  exact h

theorem HasLeft.later {nonce : Nonce} (h : HasLeft log nonce) (hop : op.readsState = false) :
    HasLeft ((op, w) :: log) nonce := by
  obtain ⟨newer, w', older, rfl, hnewer, hqueued⟩ := h
  refine ⟨(op, w) :: newer, w', older, rfl, ?_, hqueued⟩
  rw [stateReads_cons hop]
  exact hnewer

/-- Calls that do not read the stored state leave the verdict as it is. -/
theorem Orphaned.later (h : Orphaned log earlier delta) (hop : op.readsState = false) :
    Orphaned ((op, w) :: log) earlier delta := by
  cases h with
  | own haway hown =>
    refine .own (haway.later hop) (hown.imp_right fun hwas => ?_)
    rw [WasAnchored, stateReads_cons hop]
    exact hwas
  | unlinked haway hp => exact .unlinked (haway.later hop) hp
  | behind haway hsuffix hp => exact .behind (haway.later hop) (hsuffix.trans (List.suffix_cons _ _)) hp
  | left haway hleft => exact .left (haway.later hop) (hleft.later hop)

end Log

/-! ## Following the pass -/

/-- Every call of the pass is justified by what it has seen. -/
def justifies (env : World → World → Prop) (queue : List DeltaObject) : Rely Op (World × PassLog) :=
  besideCalls env fun op _ log => Justified queue op log

section Rules
variable {net : Network} {cfg : Config} {fence : LeaseFence} {env : World → World → Prop} {pid : Nat}
  {queue : List DeltaObject} {α β ε ε' : Type}

variable (net env pid queue) in
/-- Run from any world with the log, the procedure makes only justified calls, and `Q`
holds of what it returns and of the log then. -/
def Runs (x : Proc ε α) (Q : α → PassLog → Prop) (log : PassLog) : Prop :=
  ∀ w, (justifies env queue).Ensures ((machine net).recorded noteCall)
    (freeGuard Op World Choice Act PassLog) pid x (fun a y => Q a y.2) (fun _ => True) (w, log)

namespace Runs
variable {x : Proc ε α} {f : α → Proc ε β} {Q Q' : α → PassLog → Prop} {R : β → PassLog → Prop}
  {log : PassLog}

theorem pure' {a : α} (h : Q a log) : Runs net env pid queue (pure a : Proc ε α) Q log :=
  fun _ => Rely.Ensures.pure' h

theorem fail' (e : ε) : Runs net env pid queue (fail e : Proc ε α) Q log :=
  fun _ => Rely.Ensures.throw' e trivial

theorem bind' (h : Runs net env pid queue x (fun a log' => Runs net env pid queue (f a) R log') log) :
    Runs net env pid queue (x >>= f) R log :=
  fun w => Rely.Ensures.bind' ((h w).mono fun _ y hy => hy y.1)

theorem mono (h : Runs net env pid queue x Q log) (hQ : ∀ a log', Q a log' → Q' a log') :
    Runs net env pid queue x Q' log :=
  fun w => (h w).mono fun a y => hQ a y.2

theorem call' {o : Op} {Q : Res o → PassLog → Prop} (hok : Justified queue o log)
    (h : ∀ ch w r w', exec pid o ch w = some (r, w') → Q r ((o, w) :: log)) :
    Runs net env pid queue (call o : Proc ε _) Q log := by
  refine fun w => Rely.Ensures.op' fun x hrely _ => ?_
  obtain ⟨-, hlog⟩ := hrely
  refine ⟨?_, fun ch r y _ hx _ => ?_⟩
  · show Justified queue o x.2
    rw [hlog]
    exact hok
  · obtain ⟨hexec, hy⟩ := recorded_exec hx
    rw [hy, hlog]
    exact h ch x.1 r y.1 hexec

/-- The log only grows. -/
theorem grows {p : GProg α} {Q : α → World × PassLog → Prop} {w : World}
    (h : (justifies env queue).wp ((machine net).recorded noteCall)
      (freeGuard Op World Choice Act PassLog) pid p Q (w, log)) :
    (justifies env queue).wp ((machine net).recorded noteCall)
      (freeGuard Op World Choice Act PassLog) pid p (fun a y => Q a y ∧ log <:+ y.2) (w, log) := by
  induction p generalizing w log with
  | done a => exact ⟨h, List.suffix_refl log⟩
  | call o k ih =>
    intro x hrely hinv
    obtain ⟨hok, hk⟩ := h x hrely hinv
    refine ⟨hok, fun ch r y hg hx hi => ?_⟩
    have hy : y.2 = (o, x.1) :: log := by
      rw [(recorded_exec hx).2, hrely.2]
      rfl
    refine Rely.wp_mono (ih r (hk ch r y hg hx hi)) fun a z hz => ⟨hz.1, ?_⟩
    have hsuffix := hz.2
    rw [hy] at hsuffix
    exact (List.suffix_cons _ _).trans hsuffix

theorem absorb' (h : Runs net env pid queue x Q log) :
    Runs net env pid queue (absorb x : Proc ε' _)
      (fun r log' => log <:+ log' ∧ ∀ a, r = .ok a → Q a log') log := by
  refine fun w => Rely.wp_bind (Rely.wp_mono (grows (h w)) fun r y hr => ⟨hr.2, ?_⟩)
  rintro a rfl
  exact hr.1

/-- A procedure whose calls keep a fact of the log and are justified by it. -/
theorem frame {P : Op → Prop} {F : PassLog → Prop} (hx : Makes P x) (hlog : F log)
    (hkeep : ∀ {o w log}, P o → F log → F ((o, w) :: log))
    (hok : ∀ {o log}, P o → F log → Justified queue o log) :
    Runs net env pid queue x (fun _ log' => F log') log := by
  have hsteady : (justifies env queue).Steady ((machine net).recorded noteCall)
      (freeGuard Op World Choice Act PassLog) pid P (fun y => F y.2) := by
    refine ⟨?_, ?_, ?_⟩
    · rintro y y' ⟨-, hsame⟩ hF
      rw [hsame]
      exact hF
    · intro o ch r y y' hP _ hexec _ hF
      rw [(recorded_exec hexec).2]
      exact hkeep hP hF
    · intro o y hP _ hF
      exact hok hP hF
  exact fun w => Rely.Ensures.frame hsteady hx hlog fun _ => trivial

end Runs

theorem justified_of_not {o : Op} {log : PassLog} (h : ∀ d, ¬ o.GivesUp d) : Justified queue o log :=
  fun d hd => (h d hd).elim

/-- Reads, the clock and the flag. -/
theorem runs_query {q : Query} {log : PassLog} {Q : Option q.Answer → PassLog → Prop}
    (hnone : ∀ w, Q none ((.query q, w) :: log))
    (hsome : ∀ w rows, Q (some (q.run w.db rows)) ((.query q, w) :: log)) :
    Runs net env pid queue (query q : Proc ε _) Q log := by
  refine Runs.call' (justified_of_not fun d hd => hd) fun ch w r w' hx => ?_
  unfold exec at hx
  split at hx
  · cases hx
  · dsimp only at hx
    split at hx
    · cases hx
      exact hsome w ch.rows
    · cases hx
      exact hnone w

end Rules

/-! ## Handlers -/

/-- A call of a handler of `delta`: it does not read the stored state, gives up no other
candidate, and parks as orphaned only where `orphan` says so. -/
structure Op.Handles (orphan : Bool) (delta : DeltaObject) (op : Op) : Prop where
  quiet : op.readsState = false
  own : ∀ d, op.GivesUp d → Carries d delta
  parks : op.parksOrphan = true → orphan = true

section Handlers
variable {net : Network} {cfg : Config} {fence : LeaseFence} {orphan : Bool} {delta d : DeltaObject}
  {ε : Type}

theorem not_givesUp_of_quiet {op : Op} (hquiet : op.quiet = true) : ¬ op.GivesUp d := by
  intro hd
  unfold Op.GivesUp at hd
  split at hd
  · cases hquiet
  · cases hquiet
  · exact hd

theorem handles_of_quiet {op : Op} (hquiet : op.quiet = true) (hread : op.readsState = false) :
    op.Handles orphan delta := by
  refine ⟨hread, fun d hd => (not_givesUp_of_quiet hquiet hd).elim, fun hparks => ?_⟩
  · unfold Op.parksOrphan at hparks
    split at hparks
    · cases hquiet
    · cases hparks

theorem handles_query {q : Query} (h : (Op.query q).readsState = false) :
    Makes (Op.Handles orphan delta) (query q : Proc ε _) := Makes.op' (handles_of_quiet rfl h)

theorem handles_loadActiveExecution :
    Makes (Op.Handles orphan delta) (query .loadActiveExecution : Proc ε _) := handles_query rfl

theorem handles_now : Makes (Op.Handles orphan delta) (now : Proc ε _) :=
  Makes.op' (handles_of_quiet rfl rfl)

theorem handles_updateCandidateStatus {status : DeltaStatus} (hd : Carries d delta)
    (h : (Op.commit (.updateCandidateStatus d.nonce status d)).parksOrphan = true → orphan = true) :
    Makes (Op.Handles orphan delta) (updateCandidateStatus fence d status) := by
  refine makes_orFail (makes_fenced (handles_of_quiet rfl rfl) ⟨rfl, ?_, h⟩)
  rintro _ ⟨rfl, -⟩
  exact hd

theorem handles_deleteMatchingProposal :
    Makes (Op.Handles orphan delta) (deleteMatchingProposal net d) := by
  unfold deleteMatchingProposal
  split
  · exact makes_pure _
  · refine (handles_query rfl).bind' fun found => ?_
    split
    · exact (makes_write (handles_of_quiet rfl rfl)).bind' fun _ => makes_pure _
    · exact makes_pure _
    · exact makes_pure _

theorem handles_releaseAccountIfQueueEmpty :
    Makes (Op.Handles orphan delta) releaseAccountIfQueueEmpty := by
  unfold releaseAccountIfQueueEmpty
  refine (handles_query rfl).bind' fun pending => ?_
  split
  · exact (makes_write (handles_of_quiet rfl rfl)).bind' fun _ => makes_pure _
  · exact makes_pure _

theorem handles_parkCandidate {reason : RetainReason} (now : Time) (hd : Carries d delta)
    (h : reason = .orphaned → orphan = true) :
    Makes (Op.Handles orphan delta) (parkCandidate net cfg fence d reason now) := by
  have hparks : (Op.commit (.updateCandidateStatus d.nonce (.retained now (some reason)) d)).parksOrphan =
      true → orphan = true := by
    intro hp
    cases reason with
    | orphaned => exact h rfl
    | _ => cases hp
  have hdiscard : (Op.commit (.discardCandidate d.nonce .candidate d)).Handles orphan delta := by
    refine ⟨rfl, ?_, fun hp => by cases hp⟩
    rintro _ rfl
    exact hd
  unfold parkCandidate retainCandidate removeDelta
  repeat' with_reducible first
    | exact makes_pure _
    | exact handles_deleteMatchingProposal
    | exact handles_releaseAccountIfQueueEmpty
    | exact handles_updateCandidateStatus hd hparks
    | exact makes_ensureLeaseKept _
    | refine makes_fenced ?_ hdiscard
    | refine makes_orFail ?_
    | refine Makes.bind' ?_ fun _ => ?_
    | dsimp only
    | split
  exact handles_of_quiet rfl rfl

theorem handles_finalizeAbandonedCandidate (hd : Carries d delta) :
    Makes (Op.Handles orphan delta) (finalizeAbandonedCandidate net fence d) := by
  unfold finalizeAbandonedCandidate
  repeat' with_reducible first
    | exact makes_pure _
    | exact handles_now
    | exact handles_loadActiveExecution
    | exact handles_deleteMatchingProposal
    | exact handles_releaseAccountIfQueueEmpty
    | exact makes_ensureLeaseKept _
    | refine handles_updateCandidateStatus hd ?_
    | refine Makes.bind' ?_ fun _ => ?_
    | dsimp only
    | split
  all_goals exact fun hp => by cases hp

theorem handles_handleOrphanedCandidate :
    Makes (Op.Handles true delta) (handleOrphanedCandidate net cfg fence delta) := by
  unfold handleOrphanedCandidate
  split
  · exact handles_finalizeAbandonedCandidate (.refl delta)
  · exact handles_now.bind' fun now => handles_parkCandidate now (.refl delta) fun _ => rfl

/-- A status write that moves the counters of a candidate. -/
theorem handles_counters {status : DeltaStatus} (hd : Carries d delta)
    (hcandidate : status.isCandidate = d.status.isCandidate) (hd' : d.status.isCandidate = true) :
    Makes (Op.Handles false delta) (updateCandidateStatus fence d status) := by
  refine handles_updateCandidateStatus hd fun hp => ?_
  rw [hd'] at hcandidate
  cases status <;> first | cases hp | cases hcandidate

theorem handles_handleAbandonConfirmation (hd : Carries d delta) (hc : d.status.isCandidate = true) :
    Makes (Op.Handles false delta) (handleAbandonConfirmation net cfg fence d) := by
  unfold handleAbandonConfirmation
  refine handles_now.bind' fun now => ?_
  dsimp only
  split
  · exact handles_finalizeAbandonedCandidate hd
  · exact (handles_counters hd (by simp) hc).bind' fun _ => makes_ensureLeaseKept _

theorem handles_handleDivergedCandidate (hd : Carries d delta) (hc : d.status.isCandidate = true) :
    Makes (Op.Handles false delta) (handleDivergedCandidate net cfg fence d) := by
  unfold handleDivergedCandidate
  split
  · exact (handles_counters hd (by simp) hc).bind' fun _ => makes_ensureLeaseKept _
  · refine handles_now.bind' fun now => ?_
    split
    · exact handles_finalizeAbandonedCandidate hd
    · exact handles_parkCandidate now hd fun h => by cases h

theorem handles_handleUnverifiedCandidate (hd : Carries d delta) (hc : d.status.isCandidate = true) :
    Makes (Op.Handles false delta) (handleUnverifiedCandidate net cfg fence d) := by
  unfold handleUnverifiedCandidate
  refine handles_now.bind' fun now => ?_
  split
  · exact makes_pure _
  · split
    · split
      · exact handles_finalizeAbandonedCandidate hd
      · exact handles_parkCandidate now hd fun h => by cases h
    · exact (handles_counters hd (by simp) hc).bind' fun _ => makes_ensureLeaseKept _

theorem handles_handleNotLanded (hc : delta.status.isCandidate = true) :
    Makes (Op.Handles false delta) (handleNotLanded net cfg fence delta) := by
  have hreset : Makes (Op.Handles false delta) (resetDivergenceStreak fence delta) := by
    unfold resetDivergenceStreak
    split
    · exact makes_pure _
    · exact (handles_counters (.refl delta) (by simp) hc).bind' fun _ =>
        (makes_ensureLeaseKept _).bind' fun _ => makes_pure _
  unfold handleNotLanded
  refine hreset.bind_of returns_resetDivergenceStreak fun d hd => ?_
  have hd' : d.status.isCandidate = true := hd.2.2.2.2.trans hc
  split
  · exact handles_handleAbandonConfirmation hd hd'
  · exact handles_handleUnverifiedCandidate hd hd'

theorem handles_executedCandidateLanded (recomputed : Commitment) :
    Makes (Op.Handles orphan delta) (executedCandidateLanded delta recomputed) := by
  unfold executedCandidateLanded
  repeat' with_reducible first
    | exact makes_pure _
    | exact handles_loadActiveExecution
    | refine makes_node ?_
    | refine Makes.bind' ?_ fun _ => ?_
    | dsimp only
    | split
  exact handles_of_quiet rfl rfl

end Handlers

/-! ## One candidate -/

section Candidate
variable {net : Network} {cfg : Config} {fence : LeaseFence} {env : World → World → Prop} {pid : Nat}
  {queue earlier later : List DeltaObject} {delta : DeltaObject} {log : PassLog} {α : Type}

/-- A procedure that gives up nothing. -/
theorem runs_of_makes {x : Service α} (hx : Makes (fun op => ∀ d, ¬ op.GivesUp d) x) :
    Runs net env pid queue x (fun _ _ => True) log :=
  Runs.frame hx trivial (fun _ _ => trivial) fun hop _ => justified_of_not hop

theorem runs_canonicalizeVerifiedDelta (applied : AppliedState) :
    Runs net env pid queue (canonicalizeVerifiedDelta net cfg fence delta applied .candidate)
      (fun _ _ => True) log := by
  exact runs_of_makes (makes_canonicalizeVerifiedDelta
    (fun hquiet d => not_givesUp_of_quiet hquiet) fun _ d hd => hd)

variable (hqueue : queue = earlier.reverse ++ delta :: later)

include hqueue in
/-- A handler of a candidate that builds on the stored state. -/
theorem runs_anchored {x : Service α} (hx : Makes (Op.Handles false delta) x)
    (h : Anchored log delta) :
    Runs net env pid queue x (fun _ log' => Anchored log' delta) log := by
  refine Runs.frame hx h (fun hop hlog => hlog.later hop.quiet) fun hop hlog d hd => ?_
  refine ⟨earlier, delta, later, hqueue, hop.own d hd, .inl ⟨?_, hlog⟩⟩
  exact Bool.eq_false_iff.mpr fun hparks => Bool.false_ne_true (hop.parks hparks)

include hqueue in
/-- The handler of an orphan. -/
theorem runs_orphaned (h : Orphaned log earlier delta) :
    Runs net env pid queue (handleOrphanedCandidate net cfg fence delta)
      (fun _ log' => Orphaned log' earlier delta) log := by
  refine Runs.frame handles_handleOrphanedCandidate h (fun hop hlog => hlog.later hop.quiet) ?_
  exact fun hop hlog d hd => ⟨earlier, delta, later, hqueue, hop.own d hd, .inr hlog⟩

include hqueue in
theorem runs_settleFullCandidate (hc : delta.status.isCandidate = true) (h : Anchored log delta)
    (applied : AppliedState) (successors : List Commitment) (verified : Option StateVerification) :
    Runs net env pid queue (settleFullCandidate net cfg fence delta applied successors verified)
      (fun _ _ => True) log := by
  have hnotLanded : Runs net env pid queue (handleNotLanded net cfg fence delta) (fun _ _ => True) log :=
    (runs_anchored hqueue (handles_handleNotLanded hc) h).mono fun _ _ _ => trivial
  unfold settleFullCandidate
  split
  · exact runs_canonicalizeVerifiedDelta applied
  · exact hnotLanded
  · split
    · exact runs_canonicalizeVerifiedDelta applied
    · split
      · refine Runs.bind' ((runs_anchored hqueue (handles_executedCandidateLanded _) h).mono ?_)
        intro landed log' hlog
        cases landed with
        | true => exact runs_canonicalizeVerifiedDelta applied
        | false =>
          exact (runs_anchored hqueue (handles_handleDivergedCandidate (.refl delta) hc) hlog).mono
            fun _ _ _ => trivial
      · exact hnotLanded
  · exact (runs_anchored hqueue (handles_handleUnverifiedCandidate (.refl delta) hc) h).mono
      fun _ _ _ => trivial

theorem runs_pullState {e : GuardianError} {Q : StateObject → PassLog → Prop}
    (h : ∀ w state, w.db.state = some state → Q state ((.query .pullState, w) :: log)) :
    Runs net env pid queue (pullState e) Q log := by
  unfold pullState orFail
  refine Runs.bind' (Runs.bind' (runs_query (fun w => Runs.fail' _) fun w rows => ?_))
  refine Runs.pure' ?_
  show Runs net env pid queue (match w.db.state with
    | some state => pure state
    | none => fail e) Q _
  cases hstate : w.db.state with
  | none => exact Runs.fail' _
  | some state => exact Runs.pure' (h w state hstate)

theorem runs_finishInterruptedPromotion (currentState : StateObject) (h : Orphaned log earlier delta) :
    Runs net env pid queue (finishInterruptedPromotion net cfg fence delta currentState)
      (fun step log' => (step = none → Orphaned log' earlier delta) ∧ step ≠ some .orphaned) log := by
  unfold finishInterruptedPromotion
  split
  · exact Runs.pure' ⟨fun _ => h, fun hstep => by cases hstep⟩
  · refine Runs.bind' (Runs.call' (justified_of_not fun d hd => hd) fun ch w verified w' _ => ?_)
    have hlater : Orphaned ((.node (.verifyCommitment currentState.commitment .singleAttempt), w) :: log)
        earlier delta := h.later rfl
    split
    · split
      · exact Runs.fail' _
      · refine Runs.bind' ((runs_canonicalizeVerifiedDelta _).mono fun _ _ _ => ?_)
        exact Runs.pure' ⟨fun hstep => (by cases hstep), fun hstep => by cases hstep⟩
    · exact Runs.pure' ⟨fun _ => hlater, fun hstep => by cases hstep⟩

include hqueue in
theorem runs_processFullCandidate (hc : delta.status.isCandidate = true)
    (h : earlier = [] ∨ Anchored log delta) (successors : List Commitment) :
    Runs net env pid queue (processFullCandidate net cfg fence delta successors)
      (fun step log' => step = .orphaned → Orphaned log' earlier delta) log := by
  unfold processFullCandidate
  refine Runs.bind' (runs_pullState fun w state hstate => ?_)
  have hstored : w.stored = some state.commitment := by
    rw [World.stored, hstate]
    rfl
  split
  next haway =>
    have horphan : Orphaned ((.query .pullState, w) :: log) earlier delta := by
      refine .own ⟨w, _, _, stateReads_read, hstored, haway⟩ (h.imp_right ?_)
      rintro ⟨w', reads, hreads, hbase⟩
      exact ⟨w, w', reads, by rw [stateReads_read, hreads], hbase⟩
    refine Runs.bind' ((runs_finishInterruptedPromotion state horphan).mono ?_)
    rintro step log' ⟨hnone, hsome⟩
    cases step with
    | some step =>
      refine Runs.pure' fun hstep => ?_
      rw [hstep] at hsome
      exact (hsome rfl).elim
    | none =>
      refine Runs.bind' ((runs_orphaned hqueue (hnone rfl)).mono fun _ log'' hlog => ?_)
      exact Runs.pure' fun _ => hlog
  next hbase =>
    have hanchored : Anchored ((.query .pullState, w) :: log) delta := by
      refine ⟨w, _, stateReads_read, ?_⟩
      rw [hstored, Classical.not_not.mp hbase]
    split
    · exact Runs.fail' _
    · next applied _ =>
      refine Runs.bind' (Runs.call' (justified_of_not fun d hd => hd) fun ch w' verified _ _ => ?_)
      refine Runs.bind' ((runs_settleFullCandidate hqueue hc (hanchored.later rfl) applied successors
        verified).mono fun _ _ _ => ?_)
      exact Runs.pure' fun hstep => by cases hstep

end Candidate

/-! ## The queue -/

section Queue
variable {net : Network} {cfg : Config} {fence : LeaseFence} {env : World → World → Prop} {pid : Nat}
  {queue earlier : List DeltaObject} {delta p : DeltaObject} {log : PassLog}

theorem runs_storedBase {Q : Option (Option Commitment) → PassLog → Prop} {isHead : Bool}
    (hhead : isHead = true → Q (some none) log) (hnone : ∀ w, Q none ((.query .pullState, w) :: log))
    (hread : isHead = false → ∀ w stored, w.stored = some stored →
      Q (some (some stored)) ((.query .pullState, w) :: log)) :
    Runs net env pid queue (storedBase isHead) Q log := by
  cases isHead with
  | true => exact Runs.pure' (hhead rfl)
  | false =>
    unfold storedBase
    refine Runs.bind' (runs_query (fun w => Runs.pure' (hnone w)) fun w rows => ?_)
    have hrun : Query.pullState.run w.db rows = w.db.state := rfl
    rw [hrun]
    cases hstate : w.db.state with
    | none => exact Runs.pure' (hnone w)
    | some state =>
      refine Runs.pure' (hread rfl w state.commitment ?_)
      rw [World.stored, hstate]
      rfl

/-- A candidate that does not wait for its predecessor is an orphan. -/
theorem runs_awaitsPredecessor {chains : Bool} (haway : Away log delta)
    (hchains : chains = false → Orphaned log (p :: earlier) delta) :
    Runs net env pid queue (awaitsPredecessor .full (some p.nonce) chains)
      (fun waits log' => waits = false → Orphaned log' (p :: earlier) delta) log := by
  cases chains with
  | false => exact Runs.pure' fun _ => hchains rfl
  | true =>
    have hleft : ∀ w, w.queued p.nonce = false →
        Orphaned ((.query (.pullDelta p.nonce), w) :: log) (p :: earlier) delta :=
      fun w hqueued => .left (haway.later rfl) ⟨[], w, log, rfl, rfl, hqueued⟩
    show Runs net env pid queue (predecessorStillQueued .full (some p.nonce)) _ log
    unfold predecessorStillQueued
    refine Runs.bind' (runs_query (fun w => Runs.pure' fun h => by cases h) fun w rows => ?_)
    have hrun : (Query.pullDelta p.nonce).run w.db rows = (w.db.rowAt p.nonce).map (·.delta) := rfl
    rw [hrun]
    cases hrow : w.db.rowAt p.nonce with
    | none =>
      refine Runs.pure' fun _ => hleft w ?_
      rw [World.queued, hrow]
      rfl
    | some row =>
      refine Runs.pure' fun hcandidate => hleft w ?_
      rw [World.queued, hrow]
      exact hcandidate

/-- The loop at a candidate that builds on the stored state: it is looked at on its own. -/
def processHead (net : Network) (cfg : Config) (fence : LeaseFence)
    (firstError : Option GuardianError) (delta : DeltaObject) (rest : List DeltaObject) :
    Service (Option GuardianError) := do
  let successors := rest.filterMap (·.newCommitment)
  let here := some (delta.nonce, delta.newCommitment)
  match ← absorb (processCandidate net cfg fence .full delta successors) with
  | .ok .processed => processQueue net cfg fence .full false false here firstError rest
  | .ok .orphaned => processQueue net cfg fence .full false true here firstError rest
  | .error e => processQueue net cfg fence .full false false here (firstError.or (some e)) rest

/-- The loop: `earlier` is what it has gone through, and a chain is broken behind an
orphan. -/
theorem runs_processQueue (hcandidates : ∀ delta ∈ queue, delta.status.isCandidate = true)
    {rest : List DeltaObject} (hqueue : queue = earlier.reverse ++ rest) {chainBroken : Bool}
    (hbroken : chainBroken = true → ∃ p before log', earlier = p :: before ∧ log' <:+ log ∧
      Orphaned log' before p) (firstError : Option GuardianError) :
    Runs net env pid queue (processQueue net cfg fence .full earlier.isEmpty chainBroken
      (earlier.head?.map fun p => (p.nonce, p.newCommitment)) firstError rest) (fun _ _ => True) log := by
  induction rest generalizing earlier log chainBroken firstError with
  | nil => exact Runs.pure' trivial
  | cons delta rest ih =>
    have hc := hcandidates delta (by simp [hqueue])
    have hnext : queue = (delta :: earlier).reverse ++ rest := by simp [hqueue]
    have hverify : ∀ log', earlier = [] ∨ Anchored log' delta → Runs net env pid queue
        (processHead net cfg fence firstError delta rest) (fun _ _ => True) log' := by
      intro log' hown
      refine Runs.bind' ((Runs.absorb' (runs_processFullCandidate hqueue hc hown _)).mono ?_)
      rintro (e | step) log'' ⟨-, hstep⟩
      · exact ih hnext (fun h => by cases h) _
      · cases step with
        | processed => exact ih hnext (fun h => by cases h) _
        | orphaned =>
          exact ih hnext (fun _ => ⟨delta, earlier, log'', rfl, List.suffix_refl _, hstep _ rfl rfl⟩) _
    unfold processQueue
    refine Runs.bind' (Runs.call' (justified_of_not fun d hd => hd) fun ch w₀ flag w' _ => ?_)
    split
    · exact Runs.pure' trivial
    · refine Runs.bind' (runs_storedBase (fun hhead => ?_) (fun w => Runs.pure' trivial)
        fun hhead w stored hstored => ?_)
      · exact hverify _ (.inl (List.isEmpty_iff.mp hhead))
      · dsimp only
        split
        next hbase =>
          have hbase : stored = delta.prevCommitment := by simpa using hbase
          exact hverify _ (.inr ⟨w, _, stateReads_read, hbase ▸ hstored⟩)
        next hbase =>
          have haway : Away ((.query .pullState, w) :: (.flag, w₀) :: log) delta :=
            ⟨w, _, stored, stateReads_read, hstored, by simpa using hbase⟩
          cases earlier with
          | nil => cases hhead
          | cons p before =>
            have hunchained : (!chainBroken && p.newCommitment == some delta.prevCommitment) = false →
                Orphaned ((.query .pullState, w) :: (.flag, w₀) :: log) (p :: before) delta := by
              intro hchains
              cases chainBroken with
              | true =>
                obtain ⟨_, _, log', heq, hsuffix, horphan⟩ := hbroken rfl
                cases heq
                refine .behind haway (hsuffix.trans ?_) horphan
                exact (List.suffix_cons _ _).trans (List.suffix_cons _ _)
              | false => exact .unlinked haway (by simpa using hchains)
            refine Runs.bind' ((runs_awaitsPredecessor haway hunchained).mono ?_)
            intro waits log' hwaits
            cases waits with
            | true => exact Runs.pure' trivial
            | false =>
              refine Runs.bind' ((Runs.absorb' (runs_orphaned hqueue (hwaits rfl))).mono ?_)
              rintro result log'' ⟨hsuffix, -⟩
              have hbroken' : ∃ p' before' log₃, delta :: p :: before = p' :: before' ∧
                  log₃ <:+ log'' ∧ Orphaned log₃ before' p' :=
                ⟨delta, p :: before, log', rfl, hsuffix, hwaits rfl⟩
              cases result with
              | ok _ => exact ih hnext (fun _ => hbroken') _
              | error e => exact ih hnext (fun _ => hbroken') _

theorem runs_processCandidateList (hcandidates : ∀ delta ∈ queue, delta.status.isCandidate = true) :
    Runs net env pid queue (processCandidateList net cfg fence .full queue) (fun _ _ => True) [] := by
  unfold processCandidateList
  refine Runs.bind' (Runs.call' (justified_of_not fun d hd => hd) fun ch w now w' _ => ?_)
  have hqueue : queue = ([] : List DeltaObject).reverse ++ queue := rfl
  refine Runs.bind' ((runs_processQueue hcandidates hqueue (fun h => by cases h) none).mono ?_)
  intro error log' _
  cases error with
  | none => exact Runs.pure' trivial
  | some e => exact Runs.fail' e

end Queue

/-- Whatever happens between the calls of a full pass: a candidate it gives up builds on
the stored state as it was last read, or the pass has seen it orphaned; and one it parks
as orphaned it has seen orphaned. -/
theorem orphans_are_seen {net : Network} {cfg : Config} {fence : LeaseFence}
    {env : World → World → Prop} {pid : Nat} {queue : List DeltaObject}
    (hcandidates : ∀ delta ∈ queue, delta.status.isCandidate = true) {w₀ w : World} {log : PassLog}
    {op : Op} {k : Res op → GProg (Except GuardianError Unit)}
    (hr : Beside (machine net) noteCall env pid (processCandidateList net cfg fence .full queue).run
      w₀ [] (.call op k) w log) {d : DeltaObject} (hd : op.GivesUp d) :
    ∃ earlier delta later, queue = earlier.reverse ++ delta :: later ∧ Carries d delta ∧
      (op.parksOrphan = false ∧ Anchored log delta ∨ Orphaned log earlier delta) :=
  hr.asked (runs_processCandidateList hcandidates w₀) d hd

/-! ## An orphan that stays queued -/

namespace Unparked

/-- Its base is not stored, and its client has asked to abandon it. -/
def first : DeltaObject := ⟨2, "sa", some "sab", "b", .candidate 100 0 0 (some 100) 0⟩

def second : DeltaObject := ⟨3, "sab", some "sabc", "c", .newCandidate 100⟩

def fence : LeaseFence := ⟨"canonicalization", "a", 0⟩

/-- The account is stored at `s`, with both candidates queued. -/
def start : World :=
  let w := Demo.world 0
  { w with
    db := { w.db with
      deltas := (w.db.deltas.insert ⟨0, first⟩).insert ⟨1, second⟩
      nextId := 2
      leases := fun name => if name = "canonicalization" then some ⟨"a", 0, 1000⟩ else none } }

def procedure : GProg (Except GuardianError Unit) :=
  (processCandidateList (.letters 0) Demo.config fence .full [first, second]).run

/-- The execution of the account cannot be read when the first candidate is handled. -/
def choices : List Choice :=
  List.replicate 3 { block := 1 } ++ { fault := .refused } :: List.replicate 4 { block := 1 }

/-- The pass is about to park the second candidate, and the first is queued. -/
def parksSecond : GProg (Except GuardianError Unit) × World × PassLog → Bool
  | (.call (.commit (.updateCandidateStatus _ (.retained _ (some .orphaned)) d)) _, w, _) =>
    d == second && decide ((w.db.rowAt 2).map (·.delta) = some first)
  | _ => false

end Unparked

theorem unparked_run : ∃ nonce now k w log,
    Beside (machine (.letters 0)) noteCall (fun _ _ => False) 1 Unparked.procedure Unparked.start []
      (.call (.commit (.updateCandidateStatus nonce (.retained now (some .orphaned)) Unparked.second)) k)
      w log ∧ (w.db.rowAt 2).map (·.delta) = some Unparked.first := by
  have hrun : (playOwn (machine (.letters 0)) noteCall 1 Unparked.choices Unparked.procedure
      Unparked.start []).any Unparked.parksSecond = true := by decide +kernel
  obtain ⟨⟨p, w, log⟩, hplay, hparks⟩ := (Option.any_eq_true ..).mp hrun
  have hr : Beside (machine (.letters 0)) noteCall (fun _ _ => False) 1 Unparked.procedure
      Unparked.start [] p w log := Beside.start.own hplay
  unfold Unparked.parksSecond at hparks
  split at hparks
  · next nonce now d k w' log' heq =>
    obtain ⟨rfl, rfl, rfl⟩ := Prod.mk.inj heq |>.imp_right Prod.mk.inj
    simp only [Bool.and_eq_true, beq_iff_eq, decide_eq_true_eq] at hparks
    obtain ⟨rfl, hrow⟩ := hparks
    exact ⟨nonce, now, k, w, log, hr, hrow⟩
  · cases hparks

/-- The first candidate is an orphan and stays queued, as it cannot be decided whether an
execution owns it; the second, which builds on it, is parked as orphaned. -/
theorem orphan_behind_queued_predecessor :
    ¬∀ op k w log d, Beside (machine (.letters 0)) noteCall (fun _ _ => False) 1 Unparked.procedure
        Unparked.start [] (.call op k) w log → op.parksOrphan = true → op.GivesUp d →
      ∀ row ∈ w.db.deltas, row.delta.status.isCandidate = true →
        row.delta.newCommitment ≠ some d.prevCommitment := by
  intro hall
  obtain ⟨nonce, now, k, w, log, hr, hrow⟩ := unparked_run
  obtain ⟨row, hrow, hfirst⟩ := Option.map_eq_some_iff.mp hrow
  have hmem : row ∈ w.db.deltas := (Db.rowAt_eq_some.mp hrow).1
  refine hall _ k w log Unparked.second hr rfl ⟨rfl, rfl⟩ row hmem ?_ ?_
  · rw [hfirst]
    rfl
  · rw [hfirst]
    rfl

theorem orphans_are_seen_behind :
    ∃ op k w log, Beside (machine (.letters 0)) noteCall (fun _ _ => False) 1 Unparked.procedure
        Unparked.start [] (.call op k) w log ∧ op.GivesUp Unparked.second ∧
      ∃ earlier delta later, [Unparked.first, Unparked.second] = earlier.reverse ++ delta :: later ∧
        Carries Unparked.second delta ∧
        (op.parksOrphan = false ∧ Anchored log delta ∨ Orphaned log earlier delta) := by
  obtain ⟨nonce, now, k, w, log, hr, -⟩ := unparked_run
  have hcandidates : ∀ delta ∈ [Unparked.first, Unparked.second], delta.status.isCandidate = true := by
    decide
  exact ⟨_, k, w, log, hr, ⟨rfl, rfl⟩, orphans_are_seen hcandidates hr ⟨rfl, rfl⟩⟩

end Guardian
