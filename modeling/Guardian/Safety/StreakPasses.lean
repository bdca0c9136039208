import Guardian.Safety.Streaks

/- The passes that visit a queued candidate. One lemma for each handler of
   `process_full_candidate` says what it does to the counters, from the look the
   visit made: a divergence is counted or the row is taken out, a look at the base
   ends the run of divergences and confirms a requested abandon, a failed read
   moves nothing.

   `Watched` runs any number of visits, each interrupted anywhere, in a world where
   everything else goes on; the counters are the current runs in every state of it
   (`Watched.counted`). -/
namespace Guardian

open Interleaving Service

/-! ## Calls that leave the history alone -/

/-- Calls that look at the chain. -/
def Op.looks : Op → Bool
  | .node (.verifyCommitment ..) | .node (.findTransactionEndingAt ..) => true
  | _ => false

section Cleanup
variable {net : Network} {cfg : Config} {d : DeltaObject} {fence : LeaseFence} {ε : Type}

theorem makes_unsighted_deleteMatchingProposal :
    Makes (fun o => o.Fits net cfg ∧ o.unsighted = true) (Processor.deleteMatchingProposal net d) := by
  unfold Processor.deleteMatchingProposal query write call
  repeat' with_reducible first
    | exact makes_pure _
    | refine Makes.bind' ?_ fun _ => ?_
    | dsimp only
    | split
  all_goals exact Makes.op' ⟨trivial, rfl⟩

theorem makes_unsighted_releaseAccountIfQueueEmpty :
    Makes (fun o => o.Fits net cfg ∧ o.unsighted = true) Processor.releaseAccountIfQueueEmpty := by
  unfold Processor.releaseAccountIfQueueEmpty query write call
  repeat' with_reducible first
    | exact makes_pure _
    | refine Makes.bind' ?_ fun _ => ?_
    | dsimp only
    | split
  all_goals exact Makes.op' ⟨trivial, rfl⟩

theorem makes_unsighted_now :
    Makes (fun o => o.Fits net cfg ∧ o.unsighted = true) (now : Proc ε _) :=
  Makes.op' ⟨trivial, rfl⟩

/-- A promotion reads the stored state once more; it does not look at the chain. -/
theorem makes_unlooking_canonicalizeVerifiedDelta {applied : AppliedState} {source : PromotableKind}
    (happlied : applied.Lists net) :
    Makes (fun o => o.Fits net cfg ∧ o.rewrites = false ∧ o.looks = false)
      (Processor.canonicalizeVerifiedDelta net cfg fence d applied source) := by
  unfold Processor.canonicalizeVerifiedDelta Processor.releaseIfGuardianSwitched accountMetadata
    pullState orFail fenced query write now call
  repeat' with_reducible first
    | exact makes_pure _
    | exact makes_fail _
    | refine Makes.bind' ?_ fun _ => ?_
    | dsimp only
    | split
  all_goals refine Makes.op' ⟨?_, rfl, rfl⟩
  all_goals first
    | trivial
    | exact ⟨d, applied, source, happlied, rfl, ⟨_, rfl⟩, rfl, _, rfl⟩

end Cleanup

/-! ## Taking a candidate out of the queue -/

section Handlers
variable {net : Network} {cfg : Config} {rowId pid : Nat} {delta d : DeltaObject}
  {successors : List Commitment} {status : DeltaStatus} {fence : LeaseFence} {x : World × Sight}
  {F : List Look → Option Commitment → Prop} {before : List Look}

theorem Known.counted {w : World} {s : Sight} (h : Known cfg rowId delta status F w s) :
    Counted cfg rowId delta.nonce w s := h.carried.counted

theorem sees_ensureLeaseKept {outcome : CanonicalWrite} {Q : World → Sight → Prop}
    (hx : Counted cfg rowId delta.nonce x.1 x.2) (hkept : outcome ≠ .staleLease → Q x.1 x.2) :
    Sees net cfg rowId delta successors pid (Processor.ensureLeaseKept outcome) (fun _ => Q) x := by
  unfold Processor.ensureLeaseKept
  split
  · exact Rely.Ensures.throw' _ hx
  · next h => exact Rely.Ensures.pure' (hkept h)

/-- `remove_delta`. -/
theorem sees_removeDelta (hd : d.nonce = delta.nonce) (hreason : Reason cfg d F none)
    (hx : Known cfg rowId delta d.status F x.1 x.2) :
    Sees net cfg rowId delta successors pid (Processor.removeDelta net fence d .candidate)
      (fun _ w s => Known cfg rowId delta d.status F w s) x := by
  unfold Processor.removeDelta
  refine Rely.Ensures.bind' (Rely.Ensures.bind' ((sees_remove hd hreason hx).mono fun a y hy => ?_))
  cases a with
  | none => exact Rely.Ensures.throw' _ hy.counted
  | some outcome =>
    refine Rely.Ensures.pure' ?_
    dsimp only
    split
    · exact Rely.Ensures.seq steady_known makes_unsighted_deleteMatchingProposal hy Known.counted
        fun _ _ hy' => Rely.Ensures.pure' hy'
    · exact Rely.Ensures.pure' hy

/-- `retain_candidate`. -/
theorem sees_retainCandidate {reason : RetainReason} {now : Time} (hd : d.nonce = delta.nonce)
    (hreason : Reason cfg d F (some (.retained now (some reason))))
    (hx : Known cfg rowId delta d.status F x.1 x.2) :
    Sees net cfg rowId delta successors pid (Processor.retainCandidate net fence d reason now)
      (fun _ w s => Known cfg rowId delta d.status F w s) x := by
  unfold Processor.retainCandidate
  refine Rely.Ensures.bind' ((sees_end hd rfl hreason hx).mono fun outcome y hy => ?_)
  dsimp only
  split
  · refine Rely.Ensures.seq steady_known makes_unsighted_releaseAccountIfQueueEmpty hy Known.counted
      fun _ y₁ hy₁ => ?_
    exact Rely.Ensures.seq steady_known makes_unsighted_deleteMatchingProposal hy₁ Known.counted
      fun _ _ hy₂ => Rely.Ensures.pure' hy₂
  · exact Rely.Ensures.pure' hy

/-- `park_candidate`. -/
theorem sees_parkCandidate {reason : RetainReason} {now : Time} (hd : d.nonce = delta.nonce)
    (hretain : Reason cfg d F (some (.retained now (some reason)))) (hremove : Reason cfg d F none)
    (hx : Known cfg rowId delta d.status F x.1 x.2) :
    Sees net cfg rowId delta successors pid (Processor.parkCandidate net cfg fence d reason now)
      (fun _ w s => Known cfg rowId delta d.status F w s) x := by
  unfold Processor.parkCandidate
  dsimp only
  split
  · exact Rely.Ensures.bind' ((sees_retainCandidate hd hretain hx).mono fun _ y hy =>
      sees_ensureLeaseKept hy.counted fun _ => hy)
  · exact Rely.Ensures.bind' ((sees_removeDelta hd hremove hx).mono fun _ y hy =>
      sees_ensureLeaseKept hy.counted fun _ => hy)

/-- `finalize_abandoned_candidate`. -/
theorem sees_finalizeAbandonedCandidate (hd : d.nonce = delta.nonce)
    (hreason : ∀ now, Reason cfg d F (some (.discardedClientAbandoned now)))
    (hx : Known cfg rowId delta d.status F x.1 x.2) :
    Sees net cfg rowId delta successors pid (Processor.finalizeAbandonedCandidate net fence d)
      (fun _ w s => Known cfg rowId delta d.status F w s) x := by
  unfold Processor.finalizeAbandonedCandidate
  refine Rely.Ensures.seq steady_known (Makes.op' (o := Op.query .loadActiveExecution)
    ⟨trivial, rfl⟩) hx Known.counted fun execution y hy => ?_
  cases execution with
  | none => exact Rely.Ensures.pure' hy
  | some execution =>
    dsimp only
    split
    · exact Rely.Ensures.pure' hy
    refine Rely.Ensures.seq steady_known makes_unsighted_deleteMatchingProposal hy Known.counted
      fun deleted y₁ hy₁ => ?_
    split
    swap
    · exact Rely.Ensures.pure' hy₁
    refine Rely.Ensures.seq steady_known makes_unsighted_now hy₁ Known.counted fun now y₂ hy₂ => ?_
    refine Rely.Ensures.bind' ((sees_end hd rfl (hreason now) hy₂).mono fun outcome y₃ hy₃ => ?_)
    refine Rely.Ensures.bind' ((sees_ensureLeaseKept (Q := Known cfg rowId delta d.status F)
      hy₃.counted fun _ => hy₃).mono fun _ y₄ hy₄ => ?_)
    split
    · exact Rely.Ensures.frame steady_known makes_unsighted_releaseAccountIfQueueEmpty hy₄ Known.counted
    · exact Rely.Ensures.pure' hy₄

/-- `handle_orphaned_candidate`: the stored commitment read last is not the base. -/
theorem sees_handleOrphanedCandidate (hd : d.nonce = delta.nonce)
    (hF : ∀ {looks stored}, F looks stored → ∃ c, stored = some c ∧ c ≠ d.prevCommitment)
    (hx : Known cfg rowId delta d.status F x.1 x.2) :
    Sees net cfg rowId delta successors pid (Processor.handleOrphanedCandidate net cfg fence d)
      (fun _ w s => Known cfg rowId delta d.status F w s) x := by
  unfold Processor.handleOrphanedCandidate
  split
  · next hrequested =>
    exact sees_finalizeAbandonedCandidate hd
      (fun _ _ _ h _ _ => ⟨hrequested, .inr (.inr (.inr (hF h)))⟩) hx
  · refine Rely.Ensures.seq steady_known makes_unsighted_now hx Known.counted fun now y hy => ?_
    exact sees_parkCandidate hd (fun h _ _ => hF h) (fun h _ _ => .inr (.inr (hF h))) hy

/-! ## Counting a look -/

/-- What a visit that came to its end has recorded of its look, for a row that is
still queued. -/
def Look.Told (cfg : Config) (requested : Bool) (before : List Look) (l : Look) : Prop :=
  match l.seen with
  | .diverged => l.streak = true ∨ (Unmatched (divergenceSpan before) →
      cfg.divergenceConfirmations ≤ divergenceRun before + 1)
  | .atBase => divergenceRun (l :: before) = 0 ∧ (requested = true →
      l.confirmation = true ∨ (Unmatched (confirmationSpan before) →
        cfg.abandonQuarantineChecks ≤ confirmationRun before + 1))
  | .unread => l.streak = false ∧ l.confirmation = false
  | .landed => True

variable (cfg rowId delta before) in
/-- How a visit ends that does not fail. -/
structure Visited (w : World) (s : Sight) : Prop where
  counted : Counted cfg rowId delta.nonce w s
  told : ∀ r, Tracked rowId delta.nonce w r → ∃ l, s.looks = l :: before ∧
    l.Told cfg delta.status.abandonRequestedAt.isSome before

variable (before) in
/-- The newest look is `l`. -/
def Newest (l : Look) : List Look → Option Commitment → Prop := fun looks _ => looks = l :: before

theorem Visited.of_known {l : Look} {w : World} {s : Sight}
    (h : Known cfg rowId delta status (Newest before l) w s)
    (hl : divergenceRun (l :: before) = status.divergenceCount →
      confirmationRun (l :: before) = status.abandonConfirmCount →
      l.Told cfg delta.status.abandonRequestedAt.isSome before) :
    Visited cfg rowId delta before w s := by
  refine ⟨h.counted, fun r hr => ⟨l, h.history, ?_⟩⟩
  obtain ⟨hruns, hruns'⟩ := h.carried.runs hr
  rw [h.history] at hruns hruns'
  exact hl hruns hruns'

/-- A candidate whose row is gone, or written by someone else, owes nothing. -/
theorem Visited.of_gone {w : World} {s : Sight} (h : Counted cfg rowId delta.nonce w s)
    (hgone : ∀ r, ¬Tracked rowId delta.nonce w r) : Visited cfg rowId delta before w s :=
  ⟨h, fun r hr => absurd hr (hgone r)⟩

theorem Sight.wrote_looks {s : Sight} {l : Look} (hc : status.isCandidate = true)
    (hs : s.looks = l :: before) : (s.wrote status d).looks =
      ⟨l.seen, l.streak || status.divergenceCount != d.status.divergenceCount,
        l.confirmation || (d.status.abandonRequestedAt.isSome &&
          status.abandonConfirmCount != d.status.abandonConfirmCount)⟩ :: before := by
  unfold Sight.wrote
  rw [if_pos hc, hs]

/-- A counting write, from the look `l` to the look `l'`: what the row then holds
are the runs with `l'`. -/
theorem sees_counting {l : Look} (l' : Look) (hd : d.nonce = delta.nonce)
    (hc : status.isCandidate = true)
    (hl' : l' = ⟨l.seen, l.streak || status.divergenceCount != d.status.divergenceCount,
      l.confirmation || (d.status.abandonRequestedAt.isSome &&
        status.abandonConfirmCount != d.status.abandonConfirmCount)⟩)
    (hmove : divergenceRun (l :: before) = d.status.divergenceCount →
      confirmationRun (l :: before) = d.status.abandonConfirmCount →
      divergenceRun (l' :: before) = status.divergenceCount ∧
        confirmationRun (l' :: before) = status.abandonConfirmCount)
    (hx : Known cfg rowId delta d.status (Newest before l) x.1 x.2) :
    Sees net cfg rowId delta successors pid (Processor.updateCandidateStatus fence d status)
      (fun a w s => Counted cfg rowId delta.nonce w s ∧
        ((∀ r, ¬Tracked rowId delta.nonce w r) ∨ a = .staleLease ∨
          a = .applied ∧ Known cfg rowId delta status (Newest before l') w s)) x := by
  refine (sees_count hd hc (fun hs hruns hruns' => ?_) hx).mono fun a y hy => ?_
  · rw [Sight.wrote_looks hc hs, ← hl']
    rw [show _ = _ from hs] at hruns hruns'
    exact hmove hruns hruns'
  · by_cases ha : a = .applied
    · obtain ⟨hcarried, hgone | ⟨s₀, hs₀, heq⟩⟩ := hy.applied ha
      · exact ⟨hcarried.counted, .inl hgone⟩
      · refine ⟨hcarried.counted, .inr (.inr ⟨ha, hcarried, ?_⟩)⟩
        rw [heq, hl']
        exact Sight.wrote_looks hc hs₀
    · obtain ⟨hk, hstale | hgone⟩ := hy.refused ha
      · exact ⟨hk.counted, .inr (.inl hstale)⟩
      · exact ⟨hk.counted, .inl hgone⟩

@[simp] theorem divergenceRun_diverged (c : Bool) (looks : List Look) :
    divergenceRun (⟨.diverged, true, c⟩ :: looks) = divergenceRun looks + 1 := by
  simp [divergenceRun, currentRun]

@[simp] theorem confirmationRun_diverged (c : Bool) (looks : List Look) :
    confirmationRun (⟨.diverged, true, c⟩ :: looks) = 0 := by
  simp [confirmationRun, currentRun]

@[simp] theorem divergenceRun_atBase (c : Bool) (looks : List Look) :
    divergenceRun (⟨.atBase, true, c⟩ :: looks) = 0 := by
  simp [divergenceRun, currentRun]

@[simp] theorem confirmationRun_atBase (b : Bool) (looks : List Look) :
    confirmationRun (⟨.atBase, b, true⟩ :: looks) = confirmationRun looks + 1 := by
  simp [confirmationRun, currentRun]

@[simp] theorem confirmationRun_unconfirmed (b : Bool) (looks : List Look) :
    confirmationRun (⟨.atBase, b, false⟩ :: looks) = confirmationRun looks := by
  simp [confirmationRun, currentRun]

theorem divergenceRun_confirmed (o : Observation) (b c c' : Bool) (looks : List Look) :
    divergenceRun (⟨o, b, c⟩ :: looks) = divergenceRun (⟨o, b, c'⟩ :: looks) := by
  cases b with
  | false => rw [divergenceRun_unrecorded, divergenceRun_unrecorded]
  | true => cases o <;> simp [divergenceRun, currentRun]

/-- The status of a candidate, with its counters. -/
theorem status_of_isCandidate (h : status.isCandidate = true) :
    ∃ t r n at? c, status = .candidate t r n at? c := by
  cases status with
  | candidate t r n at? c => exact ⟨t, r, n, at?, c, rfl⟩
  | _ => cases h

/-- `handle_diverged_candidate`. -/
theorem sees_handleDivergedCandidate (hd : d.nonce = delta.nonce) (hc : d.status.isCandidate = true)
    (hx : Known cfg rowId delta d.status (Newest before ⟨.diverged, false, false⟩) x.1 x.2) :
    Sees net cfg rowId delta successors pid (Processor.handleDivergedCandidate net cfg fence d)
      (fun _ => Visited cfg rowId delta before) x := by
  obtain ⟨t, r, n, at?, c, hstatus⟩ := status_of_isCandidate hc
  unfold Processor.handleDivergedCandidate
  split
  · -- below the limit the look is counted, and the confirmations start over
    refine Rely.Ensures.bind' ((sees_counting ⟨.diverged, true, at?.isSome && 0 != c⟩ hd
      (by simpa using hc) ?_ ?_ hx).mono fun a y hy => ?_)
    · simp [hstatus, DeltaStatus.withIncrementedDivergence, DeltaStatus.divergenceCount,
        DeltaStatus.abandonConfirmCount, DeltaStatus.abandonRequestedAt]
    · intro hruns _
      rw [divergenceRun_unrecorded] at hruns
      rw [divergenceRun_diverged, confirmationRun_diverged, hruns, hstatus]
      exact ⟨rfl, rfl⟩
    · refine sees_ensureLeaseKept hy.1 fun hkept => ?_
      obtain hgone | hstale | ⟨_, hk⟩ := hy.2
      · exact .of_gone hy.1 hgone
      · exact absurd hstale hkept
      · exact .of_known hk fun _ _ => .inl rfl
  · next hlimit =>
    have hreason : ∀ {looks stored}, Newest before ⟨.diverged, false, false⟩ looks stored →
        divergenceRun looks = d.status.divergenceCount →
        ∀ status, Ending.Diverged cfg ⟨status, d, stored, looks⟩ := by
      intro looks stored hl hruns status
      refine ⟨by rw [Ending.seen, show looks = _ from hl]; rfl, fun _ => ?_⟩
      show cfg.divergenceConfirmations ≤ divergenceRun looks + 1
      omega
    have hvisited : ∀ {y : World × Sight},
        Known cfg rowId delta d.status (Newest before ⟨.diverged, false, false⟩) y.1 y.2 →
        Visited cfg rowId delta before y.1 y.2 := by
      refine fun hy => .of_known hy fun hruns _ => .inr fun _ => ?_
      rw [divergenceRun_unrecorded] at hruns
      omega
    refine Rely.Ensures.seq steady_known makes_unsighted_now hx Known.counted fun now y hy => ?_
    dsimp only
    split
    · next hrequested =>
      exact (sees_finalizeAbandonedCandidate hd (fun _ _ _ h hruns _ =>
        ⟨hrequested, .inl (hreason h hruns _)⟩) hy).mono fun _ _ => hvisited
    · have hretain : Reason cfg d (Newest before ⟨.diverged, false, false⟩)
          (some (.retained now (some .diverged))) := fun h hruns _ => hreason h hruns _
      exact (sees_parkCandidate hd hretain (fun h hruns _ => .inl (hreason h hruns _)) hy).mono
        fun _ _ => hvisited

variable (cfg rowId delta d before) in
/-- Nothing was recorded of the look, and the divergences are still those of `d`. -/
structure Unmoved (l : Look) (w : World) (s : Sight) : Prop where
  counted : Counted cfg rowId delta.nonce w s
  known : (∀ r, ¬Tracked rowId delta.nonce w r) ∨ ∃ status : DeltaStatus,
    status.divergenceCount = d.status.divergenceCount ∧
      Known cfg rowId delta status (Newest before l) w s

theorem Unmoved.of_known {l : Look} {w : World} {s : Sight}
    (h : Known cfg rowId delta d.status (Newest before l) w s) :
    Unmoved cfg rowId delta d before l w s := ⟨h.counted, .inr ⟨_, rfl, h⟩⟩

/-- `handle_unverified_candidate`: the look moves no counter. -/
theorem sees_handleUnverifiedCandidate {l : Look} (hd : d.nonce = delta.nonce)
    (hc : d.status.isCandidate = true) (hl : l.seen = .atBase ∨ l.seen = .unread)
    (hx : Known cfg rowId delta d.status (Newest before l) x.1 x.2) :
    Sees net cfg rowId delta successors pid (Processor.handleUnverifiedCandidate net cfg fence d)
      (fun _ => Unmoved cfg rowId delta d before l) x := by
  obtain ⟨t, r, n, at?, c, hstatus⟩ := status_of_isCandidate hc
  unfold Processor.handleUnverifiedCandidate
  refine Rely.Ensures.seq steady_known makes_unsighted_now hx Known.counted fun now y hy => ?_
  dsimp only
  split
  · -- within the grace period
    exact Rely.Ensures.pure' (.of_known hy)
  split
  · -- the retries are exhausted
    next hlimit =>
    have hreason : ∀ {looks stored}, Newest before l looks stored →
        ∀ status, Ending.Exhausted cfg ⟨status, d, stored, looks⟩ := by
      intro looks stored hlooks status
      have hseen : Ending.seen ⟨status, d, stored, looks⟩ = some l.seen := by
        rw [Ending.seen, show looks = _ from hlooks]
        rfl
      rw [Ending.Exhausted, hseen, Option.some.injEq, Option.some.injEq]
      exact ⟨hl, hlimit⟩
    split
    · next hrequested =>
      exact (sees_finalizeAbandonedCandidate hd (fun _ _ _ h _ _ =>
        ⟨hrequested, .inr (.inr (.inl (hreason h _)))⟩) hy).mono fun _ _ => .of_known
    · have hretain : Reason cfg d (Newest before l) (some (.retained now (some .retryExhausted))) :=
        fun h _ _ => hreason h _
      exact (sees_parkCandidate hd hretain (fun h _ _ => .inr (.inl (hreason h _))) hy).mono
        fun _ _ => .of_known
  · -- one more retry: the two counters of the runs stay
    refine Rely.Ensures.bind' ((sees_counting l hd (by simpa using hc) ?_ ?_ hy).mono
      fun a y hy => ?_)
    · simp [hstatus, DeltaStatus.withIncrementedRetry, DeltaStatus.divergenceCount,
        DeltaStatus.abandonConfirmCount]
    · intro hruns hruns'
      rw [hruns, hruns', hstatus]
      exact ⟨rfl, rfl⟩
    · refine sees_ensureLeaseKept hy.1 fun hkept => ⟨hy.1, ?_⟩
      obtain hgone | hstale | ⟨_, hk⟩ := hy.2
      · exact .inl hgone
      · exact absurd hstale hkept
      · exact .inr ⟨_, by rw [hstatus]; rfl, hk⟩

/-- `handle_abandon_confirmation`, after the run of divergences was ended. -/
theorem sees_handleAbandonConfirmation {b : Bool} (hd : d.nonce = delta.nonce)
    (hc : d.status.isCandidate = true) (hrequested : d.status.abandonRequestedAt.isSome = true)
    (hzero : d.status.divergenceCount = 0)
    (hx : Known cfg rowId delta d.status (Newest before ⟨.atBase, b, false⟩) x.1 x.2) :
    Sees net cfg rowId delta successors pid (Processor.handleAbandonConfirmation net cfg fence d)
      (fun _ => Visited cfg rowId delta before) x := by
  obtain ⟨t, r, n, at?, c, hstatus⟩ := status_of_isCandidate hc
  unfold Processor.handleAbandonConfirmation
  refine Rely.Ensures.seq steady_known makes_unsighted_now hx Known.counted fun now y hy => ?_
  dsimp only
  split
  · -- the last confirmation is the look itself, which is not counted any more
    next hlimit =>
    refine (sees_finalizeAbandonedCandidate hd (fun _ _ _ h _ hruns' =>
      ⟨hrequested, .inr (.inl ⟨?_, fun _ => ?_⟩)⟩) hy).mono fun _ _ hy => .of_known hy fun hruns hruns' => ?_
    · rw [Ending.seen, show _ = _ from h]
      rfl
    · show _ ≤ confirmationRun _ + 1
      rw [hruns']
      exact hlimit.1
    · rw [confirmationRun_unconfirmed] at hruns'
      exact ⟨hruns.trans hzero, fun _ => .inr fun _ => by rw [hruns']; exact hlimit.1⟩
  · refine Rely.Ensures.bind' ((sees_counting ⟨.atBase, b, true⟩ hd (by simpa using hc)
      ?_ ?_ hy).mono fun a y hy => ?_)
    · rw [hrequested]
      simp [hstatus, DeltaStatus.withIncrementedAbandonConfirm, DeltaStatus.divergenceCount,
        DeltaStatus.abandonConfirmCount]
    · intro hruns hruns'
      rw [confirmationRun_unconfirmed] at hruns'
      rw [divergenceRun_confirmed _ _ _ false, confirmationRun_atBase, hruns, hruns', hstatus]
      exact ⟨rfl, rfl⟩
    · refine sees_ensureLeaseKept hy.1 fun hkept => ?_
      obtain hgone | hstale | ⟨_, hk⟩ := hy.2
      · exact .of_gone hy.1 hgone
      · exact absurd hstale hkept
      · refine .of_known hk fun hruns _ => ⟨hruns.trans ?_, fun _ => .inl rfl⟩
        rw [hstatus] at hzero ⊢
        exact hzero

/-! ## A look at the base -/

/-- Status writes and deletions of candidates, at `nonce` only. -/
def Op.rewritesAt (nonce : Nonce) : Op → Prop
  | .commit (.updateCandidateStatus n _ _) => n = nonce
  | .commit (.discardCandidate n kind _) => n = nonce ∧ kind = .candidate
  | _ => True

variable (cfg rowId delta) in
/-- The row is not queued any more. -/
structure Gone (w : World) (s : Sight) : Prop where
  counted : Counted cfg rowId delta.nonce w s
  gone : ∀ r, ¬Tracked rowId delta.nonce w r

theorem Gone.elsewhere {w w' : World} {s : Sight} (h : Gone cfg rowId delta w s)
    (hstep : Elsewhere net cfg delta.nonce w w') : Gone cfg rowId delta w' s := by
  refine ⟨h.counted.elsewhere hstep, fun r' hr' => ?_⟩
  obtain ⟨r, hr, _⟩ := hstep.tracked h.counted.known hr'
  exact h.gone r hr

theorem Gone.of_gone {w w' : World} {s s' : Sight} (h : Gone cfg rowId delta w s)
    (hid : w.db.nextId ≤ w'.db.nextId) (hgone : ∀ r, ¬Tracked rowId delta.nonce w' r)
    (hs : s'.endings = s.endings) : Gone cfg rowId delta w' s' :=
  ⟨⟨h.counted.known.trans_le hid, fun r hr => absurd hr (hgone r), hs ▸ h.counted.endings⟩, hgone⟩

/-- A row that is gone stays gone, and nothing more is noted of it. -/
theorem steady_gone :
    (beside Op (Elsewhere net cfg delta.nonce) (Counted cfg rowId delta.nonce)).Steady
      ((machine net).recorded (noteSight rowId delta successors))
      (freeGuard Op World Choice Act Sight) pid
      (fun o => o.Fits net cfg ∧ o.rewritesAt delta.nonce)
      (fun y => Gone cfg rowId delta y.1 y.2) where
  stable := by
    rintro ⟨w, s⟩ ⟨w', s'⟩ ⟨hsteps, rfl⟩ h
    exact stable_steps (I := Gone cfg rowId delta) (fun _ _ _ hstep h => h.elsewhere hstep) hsteps h
  own := by
    rintro op ch r ⟨w, s⟩ ⟨w', s'⟩ ⟨hfits, hat⟩ - hx - h
    obtain ⟨hx, rfl⟩ := recorded_exec hx
    by_cases hop : op.rewrites = false
    · have hstep : Elsewhere net cfg delta.nonce w w' := .of_exec hfits hop hx
      exact h.of_gone hstep.nextId_le (h.elsewhere hstep).gone (noteSight_runs hop).2.2
    unfold Op.rewrites at hop
    split at hop
    · obtain rfl := hat
      obtain ⟨hdb, hnote, _⟩ | ⟨hid, hgone, hnote⟩ | ⟨_, _, row, hrow, _⟩ := exec_update hx
      · exact h.of_gone (congrArg Db.nextId hdb).ge (fun r hr => h.gone r (hr.of_db hdb)) (by rw [hnote])
      · exact h.of_gone hid.ge hgone (by rw [hnote])
      · exact absurd hrow (h.gone row)
    · obtain ⟨rfl, rfl⟩ := hat
      obtain ⟨hdb, hnote⟩ | ⟨hid, hgone, hnote | ⟨_, row, hrow⟩⟩ := exec_discard hx
      · exact h.of_gone (congrArg Db.nextId hdb).ge (fun r hr => h.gone r (hr.of_db hdb)) (by rw [hnote])
      · exact h.of_gone hid.ge hgone (by rw [hnote])
      · exact absurd hrow (h.gone row)
    · exact absurd rfl hop
  ok := fun _ _ h => h.counted

variable (cfg rowId delta d before) in
/-- What `reset_divergence_streak` returns: the row with no divergences, unless it
is gone. -/
structure Reset (d' : DeltaObject) (w : World) (s : Sight) : Prop where
  counted : Counted cfg rowId delta.nonce w s
  nonce : d'.nonce = delta.nonce
  candidate : d'.status.isCandidate = true
  requested : d'.status.abandonRequestedAt = d.status.abandonRequestedAt
  known : (∀ r, ¬Tracked rowId delta.nonce w r) ∨ (d'.status.divergenceCount = 0 ∧
    ∃ b, Known cfg rowId delta d'.status (Newest before ⟨.atBase, b, false⟩) w s)

theorem sees_resetDivergenceStreak (hd : d.nonce = delta.nonce) (hc : d.status.isCandidate = true)
    (hx : Known cfg rowId delta d.status (Newest before ⟨.atBase, false, false⟩) x.1 x.2) :
    Sees net cfg rowId delta successors pid (Processor.resetDivergenceStreak fence d)
      (Reset cfg rowId delta d before) x := by
  obtain ⟨t, r, n, at?, c, hstatus⟩ := status_of_isCandidate hc
  unfold Processor.resetDivergenceStreak
  split
  · next hzero => exact Rely.Ensures.pure' ⟨hx.counted, hd, hc, rfl, .inr ⟨hzero, _, hx⟩⟩
  next hpos =>
  have hn : n ≠ 0 := by rwa [hstatus] at hpos
  refine Rely.Ensures.bind' ((sees_counting ⟨.atBase, true, false⟩ hd (by simpa using hc)
    ?_ ?_ hx).mono fun a y hy => ?_)
  · simp [hstatus, DeltaStatus.withResetDivergence, DeltaStatus.divergenceCount,
      DeltaStatus.abandonConfirmCount, Ne.symm hn]
  · intro _ hruns'
    rw [confirmationRun_unconfirmed] at hruns' ⊢
    rw [divergenceRun_atBase, hruns', hstatus]
    exact ⟨rfl, rfl⟩
  have hkept : a ≠ .staleLease → Reset cfg rowId delta d before
      (if a = .applied then { d with status := d.status.withResetDivergence } else d) y.1 y.2 := by
    intro hlease
    obtain hgone | hstale | ⟨rfl, hk⟩ := hy.2
    · split
      · exact ⟨hy.1, hd, by simpa using hc, by simp, .inl hgone⟩
      · exact ⟨hy.1, hd, hc, rfl, .inl hgone⟩
    · exact absurd hstale hlease
    · rw [if_pos rfl]
      refine ⟨hy.1, hd, by simpa using hc, by simp, .inr ⟨?_, true, hk⟩⟩
      rw [hstatus]
      rfl
  exact Rely.Ensures.bind' ((sees_ensureLeaseKept (Q := Reset cfg rowId delta d before
    (if a = .applied then { d with status := d.status.withResetDivergence } else d)) hy.1
    hkept).mono fun _ _ h => Rely.Ensures.pure' h)

/-- The writes of the visit are at its own nonce. -/
theorem writesFit_rewritesAt (hd : d.nonce = delta.nonce) :
    WritesFit cfg (fun o => o.Fits net cfg ∧ o.rewritesAt delta.nonce) d :=
  ⟨fun hc h => ⟨⟨rfl, h⟩, hc.1.trans hd⟩, fun hc h => ⟨⟨rfl, .inr ⟨rfl, h⟩⟩, hc.1.trans hd, rfl⟩⟩

theorem rewritesAt_of_quiet {o : Op} (h : o.quiet = true) :
    o.Fits net cfg ∧ o.rewritesAt delta.nonce := by
  refine ⟨Op.fits_of_quiet h, ?_⟩
  unfold Op.rewritesAt
  split
  · cases h
  · cases h
  · trivial

/-- The chain reads as if the candidate had not landed yet. -/
theorem sees_handleNotLanded (hc : delta.status.isCandidate = true)
    (hx : Known cfg rowId delta delta.status (Newest before ⟨.atBase, false, false⟩) x.1 x.2) :
    Sees net cfg rowId delta successors pid (Processor.handleNotLanded net cfg fence delta)
      (fun _ => Visited cfg rowId delta before) x := by
  unfold Processor.handleNotLanded
  refine Rely.Ensures.bind' ((sees_resetDivergenceStreak rfl hc hx).mono fun d y hy => ?_)
  have hw : WritesFit cfg (fun o => o.Fits net cfg ∧ o.rewritesAt delta.nonce) d :=
    writesFit_rewritesAt hy.nonce
  obtain hgone | ⟨hzero, b, hk⟩ := hy.known
  · -- the row is gone: nothing the rest does touches it
    have hframe : ∀ {p : Service Unit},
        Makes (fun o => o.Fits net cfg ∧ o.rewritesAt delta.nonce) p →
        Sees net cfg rowId delta successors pid p (fun _ => Visited cfg rowId delta before) y :=
      fun hp => (Rely.Ensures.frame steady_gone hp ⟨hy.counted, hgone⟩ Gone.counted).mono
        fun _ _ h => .of_gone h.counted h.gone
    split
    · exact hframe (Processor.makes_handleAbandonConfirmation rewritesAt_of_quiet hw)
    · exact hframe (Processor.makes_handleUnverifiedCandidate rewritesAt_of_quiet hw)
  · split
    · next hrequested => exact sees_handleAbandonConfirmation hy.nonce hy.candidate hrequested hzero hk
    · next hnot =>
      refine (sees_handleUnverifiedCandidate hy.nonce hy.candidate (.inl rfl) hk).mono
        fun _ z hz => ?_
      obtain hgone | ⟨status, hsame, hk⟩ := hz.known
      · exact .of_gone hz.counted hgone
      · refine .of_known hk fun hruns _ => ⟨hruns.trans (hsame.trans hzero), fun h => ?_⟩
        rw [hy.requested] at hnot
        exact absurd h hnot

/-! ## Looking -/

theorem noteSight_unlooking {op : Op} {ch : Choice} {w : World} {s : Sight}
    (hop : op.rewrites = false) (hlooks : op.looks = false) :
    (noteSight rowId delta successors pid op ch w s).looks = s.looks := by
  unfold noteSight
  split
  · split <;> rfl
  · cases hlooks
  · cases hlooks
  · cases hop
  · cases hop
  · rfl

/-- Where only the looks matter, the stored state may be read again. -/
theorem steady_looks {G : List Look → Prop} :
    (beside Op (Elsewhere net cfg delta.nonce) (Counted cfg rowId delta.nonce)).Steady
      ((machine net).recorded (noteSight rowId delta successors))
      (freeGuard Op World Choice Act Sight) pid
      (fun o => o.Fits net cfg ∧ o.rewrites = false ∧ o.looks = false)
      (fun y => Known cfg rowId delta status (fun looks _ => G looks) y.1 y.2) where
  stable := fun hrely h => h.wait hrely
  own := by
    rintro op ch r ⟨w, s⟩ ⟨w', s'⟩ ⟨hfits, hop, hlooks⟩ - hx - h
    obtain ⟨hx, rfl⟩ := recorded_exec hx
    refine ⟨h.carried.call hfits hop hx, ?_⟩
    rw [noteSight_unlooking hop hlooks]
    exact h.history
  ok := fun _ _ h => h.counted

/-- One look at the chain. -/
theorem sees_verifyCommitment {c : Commitment} {mode : RpcReadMode}
    (hx : Known cfg rowId delta status F x.1 x.2) :
    Sees net cfg rowId delta successors pid
      (node (.verifyCommitment c mode) : Service _)
      (fun answer => Known cfg rowId delta status (fun looks stored => ∃ looks₀,
        looks = ⟨.of delta c successors answer, false, false⟩ :: looks₀ ∧ F looks₀ stored)) x := by
  refine Rely.Ensures.op' fun z hrely _ => ?_
  have hz := hx.wait hrely
  refine ⟨hz.counted, fun ch answer y _ hexec _ => ?_⟩
  obtain ⟨w, s⟩ := z
  obtain ⟨w', s'⟩ := y
  obtain ⟨hexec, rfl⟩ := recorded_exec hexec
  have hfits : Op.Fits net cfg (.node (.verifyCommitment c mode)) := trivial
  have hexec' : Guardian.exec pid (.node (.verifyCommitment c mode)) ch w = some (answer, w') := hexec
  refine ⟨hz.carried.call hfits rfl hexec, s.looks, ?_⟩
  dsimp only
  simp only [noteSight, hexec']
  exact ⟨trivial, hz.history⟩

/-- `executed_candidate_landed`: a transaction that ends at the candidate makes the
divergence a look at one that landed. -/
theorem sees_executedCandidateLanded {recomputed : Commitment}
    (hx : Known cfg rowId delta status (Newest before ⟨.diverged, false, false⟩) x.1 x.2) :
    Sees net cfg rowId delta successors pid (Processor.executedCandidateLanded delta recomputed)
      (fun landed => Known cfg rowId delta status
        (Newest before ⟨if landed then .landed else .diverged, false, false⟩)) x := by
  unfold Processor.executedCandidateLanded
  refine Rely.Ensures.seq steady_known (Makes.op' (o := Op.query .loadActiveExecution)
    ⟨trivial, rfl⟩) hx Known.counted fun execution y hy => ?_
  dsimp only
  -- without evidence of this candidate the chain is not asked
  split
  swap
  · exact Rely.Ensures.pure' hy
  split
  · exact Rely.Ensures.pure' hy
  split
  · exact Rely.Ensures.pure' hy
  next evidence _ _ =>
  refine Rely.Ensures.bind' (Rely.Ensures.op' fun z hrely _ => ?_)
  have hz := hy.wait hrely
  refine ⟨hz.counted, fun ch answer y' _ hexec _ => ?_⟩
  obtain ⟨w, s⟩ := z
  obtain ⟨w', s'⟩ := y'
  obtain ⟨hexec, rfl⟩ := recorded_exec hexec
  have hfits : Op.Fits net cfg
      (.node (.findTransactionEndingAt recomputed evidence.referenceBlock)) := trivial
  have hexec' : Guardian.exec pid (.node (.findTransactionEndingAt recomputed
    evidence.referenceBlock)) ch w = some (answer, w') := hexec
  have hcarried : Carried cfg rowId delta.nonce status w' (noteSight rowId delta successors pid
    (.node (.findTransactionEndingAt recomputed evidence.referenceBlock)) ch w s) :=
    hz.carried.call hfits rfl hexec
  have hnote : noteSight rowId delta successors pid
      (.node (.findTransactionEndingAt recomputed evidence.referenceBlock)) ch w s =
      if (answer.bind (·.foundInBlock)).isSome then s.markLanded else s := by
    simp only [noteSight, hexec']
    cases answer <;> rfl
  have hlooks : s.looks = ⟨.diverged, false, false⟩ :: before := hz.history
  rw [hnote] at hcarried ⊢
  cases answer with
  | none => exact Rely.Ensures.pure' ⟨hcarried, hlooks⟩
  | some search =>
    refine Rely.Ensures.pure' ?_
    rw [Option.bind_some] at hcarried ⊢
    cases hfound : search.foundInBlock.isSome with
    | false =>
      rw [hfound] at hcarried
      exact ⟨hcarried, hlooks⟩
    | true =>
      rw [hfound] at hcarried
      refine ⟨hcarried, ?_⟩
      show s.markLanded.looks = _
      unfold Sight.markLanded
      rw [hlooks]
      rfl

/-! ## A visit -/

/-- `canonicalize_verified_delta` records nothing of its look. -/
theorem sees_canonicalizeVerifiedDelta {applied : AppliedState} (happlied : applied.Lists net)
    (hx : Known cfg rowId delta status (Newest before ⟨.landed, false, false⟩) x.1 x.2) :
    Sees net cfg rowId delta successors pid
      (Processor.canonicalizeVerifiedDelta net cfg fence d applied .candidate)
      (fun _ => Visited cfg rowId delta before) x :=
  (Rely.Ensures.frame (steady_looks (G := fun looks => looks = ⟨.landed, false, false⟩ :: before))
    (makes_unlooking_canonicalizeVerifiedDelta happlied) hx Known.counted).mono
    fun _ _ hy => .of_known hy fun _ _ => trivial

theorem sees_settleFullCandidate {applied : AppliedState} {verified : Option StateVerification}
    (hc : delta.status.isCandidate = true) (happlied : applied.Lists net)
    (hx : Known cfg rowId delta delta.status
      (Newest before ⟨.of delta applied.commitment successors verified, false, false⟩) x.1 x.2) :
    Sees net cfg rowId delta successors pid
      (Processor.settleFullCandidate net cfg fence delta applied successors verified)
      (fun _ => Visited cfg rowId delta before) x := by
  unfold Processor.settleFullCandidate
  -- the chain is at the candidate, has no account, is elsewhere, or could not be read
  split
  · exact sees_canonicalizeVerifiedDelta happlied hx
  · exact sees_handleNotLanded hc hx
  · next onChain =>
    rw [Observation.of] at hx
    split
    · next hthrough =>
      rw [if_pos hthrough] at hx
      exact sees_canonicalizeVerifiedDelta happlied hx
    next hthrough =>
    rw [if_neg hthrough] at hx
    split
    · next hbase =>
      rw [if_pos hbase] at hx
      refine Rely.Ensures.bind' ((sees_executedCandidateLanded hx).mono fun landed y hy => ?_)
      dsimp only at hy
      split
      · next hlanded =>
        rw [if_pos hlanded] at hy
        exact sees_canonicalizeVerifiedDelta happlied hy
      · next hlanded =>
        rw [if_neg hlanded] at hy
        exact sees_handleDivergedCandidate rfl hc hy
    · next hbase =>
      rw [if_neg hbase] at hx
      exact sees_handleNotLanded hc hx
  · refine (sees_handleUnverifiedCandidate rfl hc (.inr rfl) hx).mono fun _ z hz => ?_
    obtain hgone | ⟨status, _, hk⟩ := hz.known
    · exact .of_gone hz.counted hgone
    · exact .of_known hk fun _ _ => ⟨rfl, rfl⟩

/-- A read of the stored state. -/
theorem sees_pullState (hx : Known cfg rowId delta status (fun looks _ => looks = before) x.1 x.2) :
    Sees net cfg rowId delta successors pid (pullState .storageError : Service StateObject)
      (fun state => Known cfg rowId delta status
        (fun looks stored => looks = before ∧ stored = some state.commitment)) x := by
  unfold pullState orFail
  refine Rely.Ensures.bind' (Rely.Ensures.bind' (Rely.Ensures.op' fun z hrely _ => ?_))
  have hz := hx.wait hrely
  refine ⟨hz.counted, fun ch answer y _ hexec _ => ?_⟩
  obtain ⟨w, s⟩ := z
  obtain ⟨w', s'⟩ := y
  obtain ⟨hexec, rfl⟩ := recorded_exec hexec
  have hfits : Op.Fits net cfg (.query .pullState) := trivial
  have hexec' : Guardian.exec pid (.query .pullState) ch w = some (answer, w') := hexec
  have hcarried : Carried cfg rowId delta.nonce status w'
      (noteSight rowId delta successors pid (.query .pullState) ch w s) :=
    hz.carried.call hfits rfl hexec
  have hlooks : s.looks = before := hz.history
  cases answer with
  | none => exact Rely.Ensures.throw' _ hcarried.counted
  | some state =>
    refine Rely.Ensures.pure' ?_
    cases state with
    | none => exact Rely.Ensures.throw' _ hcarried.counted
    | some state =>
      refine Rely.Ensures.pure' ⟨hcarried, ?_⟩
      dsimp only
      simp only [noteSight, hexec']
      exact ⟨hlooks, trivial⟩

theorem Known.mono {F' : List Look → Option Commitment → Prop} {w : World} {s : Sight}
    (h : Known cfg rowId delta status F w s) (hF : ∀ {looks stored}, F looks stored → F' looks stored) :
    Known cfg rowId delta status F' w s := ⟨h.carried, hF h.history⟩

/-- `finish_interrupted_promotion`: finished, or the stored state is as it was. -/
theorem sees_finishInterruptedPromotion {state : StateObject}
    (hx : Known cfg rowId delta status
      (fun looks stored => looks = before ∧ stored = some state.commitment) x.1 x.2) :
    Sees net cfg rowId delta successors pid
      (Processor.finishInterruptedPromotion net cfg fence delta state)
      (fun step w s => match step with
        | some step => step = .processed ∧ Visited cfg rowId delta before w s
        | none => Known cfg rowId delta status (fun _ stored => stored = some state.commitment) w s)
      x := by
  unfold Processor.finishInterruptedPromotion
  split
  · exact Rely.Ensures.pure' (hx.mono And.right)
  refine Rely.Ensures.bind' ((sees_verifyCommitment hx).mono fun answer y hy => ?_)
  dsimp only at hy
  have hstored : Known cfg rowId delta status
      (fun _ stored => stored = some state.commitment) y.1 y.2 :=
    hy.mono fun ⟨_, _, h⟩ => h.2
  split
  swap
  · exact Rely.Ensures.pure' hstored
  split
  · exact Rely.Ensures.throw' _ hstored.counted
  next binding hbinding =>
  have hnewest : Known cfg rowId delta status (Newest before ⟨.landed, false, false⟩) y.1 y.2 :=
    hy.mono fun ⟨_, h, h'⟩ => by rw [h, h'.1]; rfl
  obtain ⟨_, _, rfl⟩ := Option.map_eq_some_iff.mp hbinding
  exact Rely.Ensures.bind' ((sees_canonicalizeVerifiedDelta (.inr (List.perm_insertionSort ..))
    hnewest).mono fun _ _ h => Rely.Ensures.pure' ⟨rfl, h⟩)

/-- `process_full_candidate`. -/
theorem sees_processFullCandidate (hc : delta.status.isCandidate = true)
    (hx : Known cfg rowId delta delta.status (fun looks _ => looks = before) x.1 x.2) :
    Sees net cfg rowId delta successors pid
      (Processor.processFullCandidate net cfg fence delta successors)
      (fun step w s => Counted cfg rowId delta.nonce w s ∧
        (step = .processed → Visited cfg rowId delta before w s)) x := by
  unfold Processor.processFullCandidate
  refine Rely.Ensures.bind' ((sees_pullState hx).mono fun state y hy => ?_)
  dsimp only at hy ⊢
  split
  · next hbase =>
    refine Rely.Ensures.bind' ((sees_finishInterruptedPromotion hy).mono fun step z hz => ?_)
    cases step with
    | some step =>
      obtain ⟨rfl, hvisited⟩ := hz
      exact Rely.Ensures.pure' ⟨hvisited.counted, fun _ => hvisited⟩
    | none =>
      refine Rely.Ensures.bind' ((sees_handleOrphanedCandidate rfl
        (fun h => ⟨_, h, hbase⟩) hz).mono fun _ _ h => Rely.Ensures.pure' ⟨h.counted, ?_⟩)
      intro hstep
      cases hstep
  · split
    · exact Rely.Ensures.throw' _ hy.counted
    next applied happlied =>
    refine Rely.Ensures.bind' ((sees_verifyCommitment hy).mono fun answer z hz => ?_)
    have hnewest : Known cfg rowId delta delta.status (Newest before
        ⟨.of delta applied.commitment successors answer, false, false⟩) z.1 z.2 :=
      hz.mono fun ⟨_, h, h'⟩ => by rw [h, h'.1]; rfl
    exact Rely.Ensures.bind' ((sees_settleFullCandidate hc (.inl ⟨_, _, happlied⟩) hnewest).mono
      fun _ _ h => Rely.Ensures.pure' ⟨h.counted, fun _ => h⟩)

end Handlers

/-! ## Any number of visits -/

section Watched
variable (net : Network) (cfg : Config) (rowId : Nat) (nonce : Nonce)

/-- The life of the row `rowId` since it was queued: full passes visit it one after
another, each from the row as it listed it and each cut short anywhere, while
everything else goes on. A pass whose own read of the stored state shows another
base handles it as orphaned. -/
inductive Watched : World → Sight → Prop where
  | queued {op : Op} {delta : DeltaObject} {w w' : World} : op.Fits net cfg →
      Queued w.db w'.db op delta → rowId = w.db.nextId → nonce = delta.nonce →
      Watched w' .empty
  | elsewhere {w w' : World} {s : Sight} : Watched w s → Elsewhere net cfg nonce w w' → Watched w' s
  | visited {w w' : World} {s s' : Sight} {r : DeltaRow} {fence : LeaseFence}
      {successors : List Commitment} {pid : Nat} {p : GProg (Except GuardianError CandidateStep)} :
      Watched w s → Tracked rowId nonce w r →
      Beside (machine net) (noteSight rowId r.delta successors) (Elsewhere net cfg nonce) pid
        (Processor.processFullCandidate net cfg fence r.delta successors).run w s p w' s' →
      Watched w' s'
  | orphaned {w w' : World} {s s' : Sight} {r : DeltaRow} {fence : LeaseFence} {stored : Commitment}
      {pid : Nat} {p : GProg (Except GuardianError Unit)} :
      Watched w s → Tracked rowId nonce w r → stored ≠ r.delta.prevCommitment →
      Beside (machine net) (noteSight rowId r.delta []) (Elsewhere net cfg nonce) pid
        (Processor.handleOrphanedCandidate net cfg fence r.delta).run w
        { s with stored := some stored } p w' s' →
      Watched w' s'

variable {net cfg rowId nonce} {w w' : World} {s s' : Sight} {r : DeltaRow}

/-- What a pass that lists the row knows. -/
theorem Counted.listed (h : Counted cfg rowId nonce w s) (hr : Tracked rowId nonce w r) :
    Carried cfg rowId r.delta.nonce r.delta.status w s := by
  rw [hr.nonce]
  exact ⟨h, fun r' hr' => by rw [hr'.eq hr], fun r' hr' => by rw [hr'.eq hr]⟩

theorem Visited.elsewhere {delta : DeltaObject} {before : List Look}
    (h : Visited cfg rowId delta before w s) (hstep : Elsewhere net cfg delta.nonce w w') :
    Visited cfg rowId delta before w' s := by
  refine ⟨h.counted.elsewhere hstep, fun r' hr' => ?_⟩
  obtain ⟨r, hr, _⟩ := hstep.tracked h.counted.known hr'
  exact h.told r hr

/-- A procedure of a visit keeps the counters, in every state of its runs. -/
theorem Counted.beside {delta : DeltaObject} {successors : List Commitment} {pid : Nat} {ε α : Type}
    {x : Proc ε α} {p : GProg (Except ε α)} {Q : α → World → Sight → Prop}
    (hsees : Sees net cfg rowId delta successors pid x Q (w, s))
    (hQ : ∀ a w s, Q a w s → Counted cfg rowId delta.nonce w s)
    (hrun : Beside (machine net) (noteSight rowId delta successors) (Elsewhere net cfg delta.nonce) pid
      x.run w s p w' s') : Counted cfg rowId delta.nonce w' s' := by
  refine hrun.keeps (fun _ _ _ hstep h => h.elsewhere hstep) (Rely.wp_mono hsees fun r y hy => ?_)
  cases r with
  | ok a => exact hQ a _ _ hy
  | error e => exact hy

theorem Watched.counted (h : Watched net cfg rowId nonce w s) : Counted cfg rowId nonce w s := by
  induction h with
  | @queued op delta w w' hfits hqueued hid hnonce =>
    subst hid hnonce
    refine ⟨by rw [hqueued.inserts.nextId]; exact Nat.lt_succ_self _, fun r hr => ?_, fun e he => ?_⟩
    · obtain ⟨t, hstatus⟩ := (hqueued.queues hfits).1
      obtain rfl | ⟨_, hne⟩ := hqueued.inserts.mem.mp hr.mem
      · rw [show (DeltaRow.mk w.db.nextId delta).delta.status = _ from hstatus]
        exact ⟨rfl, rfl⟩
      · exact absurd hr.nonce hne
    · cases he
  | elsewhere _ hstep ih => exact ih.elsewhere hstep
  | visited _ hr hrun ih =>
    have hlisted := ih.listed hr
    obtain rfl := hr.nonce
    exact Counted.beside (sees_processFullCandidate hr.candidate ⟨hlisted, rfl⟩)
      (fun _ _ _ h => h.1) hrun
  | @orphaned w w' s s' r fence stored pid p _ hr hbase hrun ih =>
    have hlisted : Carried cfg rowId r.delta.nonce r.delta.status w { s with stored := some stored } :=
      (ih.listed hr).noted rfl rfl rfl
    obtain rfl := hr.nonce
    exact Counted.beside (sees_handleOrphanedCandidate (F := fun _ c => c = some stored) rfl
      (fun h => ⟨stored, h, hbase⟩) ⟨hlisted, rfl⟩) (fun _ _ _ h => h.counted) hrun

/-- In every state of every sequence of visits to a candidate: the counters of the
row are the current runs among its recorded looks, where no match is in the run, and
a write that took it out of the queue had its reason. A visit that comes to its end
has recorded its look where that is owed. -/
theorem candidate_counters_are_runs (h : Watched net cfg rowId nonce w s) :
    (∀ r, Tracked rowId nonce w r →
      (Unmatched (divergenceSpan s.looks) →
        r.delta.status.divergenceCount = divergenceRun s.looks) ∧
      (Unmatched (confirmationSpan s.looks) →
        r.delta.status.abandonConfirmCount = confirmationRun s.looks)) ∧
    (∀ e ∈ s.endings, e.Justified cfg) ∧
    ∀ (r : DeltaRow) (fence : LeaseFence) (successors : List Commitment) (pid : Nat) (w' : World)
      (s' : Sight), Tracked rowId nonce w r →
      Beside (machine net) (noteSight rowId r.delta successors) (Elsewhere net cfg nonce) pid
        (Processor.processFullCandidate net cfg fence r.delta successors).run w s
        (.done (.ok .processed)) w' s' →
      ∀ r', Tracked rowId nonce w' r' → ∃ l, s'.looks = l :: s.looks ∧
        l.Told cfg r.delta.status.abandonRequestedAt.isSome s.looks := by
  refine ⟨fun r hr => ⟨fun _ => (h.counted.counts r hr).1, fun _ => (h.counted.counts r hr).2⟩,
    h.counted.endings, fun r fence successors pid w' s' hr hrun r' hr' => ?_⟩
  have hlisted := h.counted.listed hr
  obtain rfl := hr.nonce
  obtain ⟨w₁, hsteps, hend⟩ := hrun.ends (sees_processFullCandidate hr.candidate ⟨hlisted, rfl⟩)
  have hvisited : Visited cfg rowId r.delta s.looks w' s' :=
    stable_steps (I := Visited cfg rowId r.delta s.looks) (fun _ _ _ hstep h => h.elsewhere hstep)
      hsteps (hend.2 rfl)
  exact hvisited.told r' hr'

end Watched

/-! ## A candidate the account moved past -/

namespace MovedPast

/-- Three divergences, and one retry. -/
def limits : Config := { Demo.config with divergenceConfirmations := 3, maxRetries := 1 }

def fence : LeaseFence := ⟨"canonicalization", "a", 0⟩

def delta (submittedAt : Time) : DeltaObject := ⟨1, "s", some "st", "t", .newCandidate submittedAt⟩

/-- The account is stored at `s`, and on chain at `sx`. -/
def start : World :=
  let w := Demo.world 0
  { w with
    db := { w.db with
      leases := fun name => if name = "canonicalization" then some ⟨"a", 0, 1000⟩ else none }
    chain := { w.chain with entries := [⟨"sx", 2, none⟩], tip := 2 } }

def submit (submittedAt : Time) : Op :=
  .write (.submitCandidate (delta submittedAt) 100 limits.candidatePolicy)

/-- The client asks to abandon it. -/
def abandon : Op := .write (.requestCandidateAbandon 1 "st" 100)

/-- Visits one after another, each making the calls that are listed for it. -/
def watch : List (List Choice) → World → Sight → Option (World × Sight)
  | [], w, s => some (w, s)
  | choices :: rest, w, s =>
    (w.db.rowAt 1).bind fun r =>
      if r.id = 0 ∧ r.delta.status.isCandidate = true then
        (playOwn (machine (.letters 0)) (noteSight 0 r.delta []) 1 choices
          (Processor.processFullCandidate (.letters 0) limits fence r.delta []).run w s).bind
          fun x => watch rest x.2.1 x.2.2
      else none

/-- `n` calls, nothing failing and every read served at the tip. -/
def calls (n : Nat) : List Choice := List.replicate n { block := 2 }

def failing : Choice := { block := 2, fault := .refused }

/-- A divergence, a failed read, and a divergence. -/
def interrupted : Option (World × Sight) :=
  (exec 0 (submit 100) {} start).bind fun x =>
    watch [calls 5, calls 1 ++ [failing] ++ calls 1, calls 5] x.2 .empty

/-- A divergence whose write is refused. -/
def unwritten : Option (World × Sight) :=
  (exec 0 (submit 100) {} start).bind fun x => watch [calls 4 ++ [failing]] x.2 .empty

/-- A failed read of a candidate that is to be abandoned, after its grace period. -/
def exhausted : Option (World × Sight) :=
  (exec 0 (submit 0) {} start).bind fun x =>
    (exec 0 abandon {} x.2).bind fun y => watch [calls 1 ++ [failing] ++ calls 6] y.2 .empty

theorem fits_submit (submittedAt : Time) : (submit submittedAt).Fits (.letters 0) limits := by
  refine ⟨rfl, ⟨submittedAt, rfl⟩, "st", rfl, "s",
    ⟨"st", "st", some 1, [⟨"old", none⟩], some "guardian"⟩, Demo.isState_s 0, ?_, rfl⟩
  show (Network.letters 0).applyDelta "s" "t" = _
  decide +kernel

theorem watched_submit {submittedAt : Time} {a : Res (submit submittedAt)} {w : World}
    (hx : exec 0 (submit submittedAt) {} start = some (a, w))
    (hrow : (exec 0 (submit submittedAt) {} start).any (fun x => (x.2.db.rowAt 1).isSome) = true) :
    Watched (.letters 0) limits 0 1 w .empty := by
  rw [hx] at hrow
  obtain ⟨r, hr⟩ := Option.isSome_iff_exists.mp hrow
  cases (exec_effect hx).2.row_cases (Db.rowAt_eq_some.mp hr).1 with
  | kept hmem => cases hmem
  | @queued d hqueued _ =>
    have hdelta : d = delta submittedAt := by
      cases hqueued
      rfl
    exact .queued (fits_submit submittedAt) hqueued rfl (by rw [hdelta]; rfl)
  | abandoned hcall => cases hcall
  | updated hcall => cases hcall
  | flipped hcall => cases hcall
  | restored hcall => cases hcall

theorem watched_watch {visits : List (List Choice)} {w w' : World} {s s' : Sight}
    (h : Watched (.letters 0) limits 0 1 w s) (hw : watch visits w s = some (w', s')) :
    Watched (.letters 0) limits 0 1 w' s' := by
  induction visits generalizing w s with
  | nil =>
    cases hw
    exact h
  | cons choices rest ih =>
    obtain ⟨r, hr, hw⟩ := Option.bind_eq_some_iff.mp hw
    split at hw
    · next hqueued =>
      obtain ⟨⟨p, w₁, s₁⟩, hplay, hrest⟩ := Option.bind_eq_some_iff.mp hw
      obtain ⟨hmem, hnonce⟩ := Db.rowAt_eq_some.mp hr
      exact ih (h.visited ⟨hmem, hqueued.1, hnonce, hqueued.2⟩ (Beside.start.own hplay)) hrest
    · cases hw

theorem watched_interrupted {w : World} {s : Sight} (h : interrupted = some (w, s)) :
    Watched (.letters 0) limits 0 1 w s := by
  obtain ⟨⟨a, w₁⟩, hsubmit, hwatch⟩ := Option.bind_eq_some_iff.mp h
  exact watched_watch (watched_submit hsubmit (by decide +kernel)) hwatch

theorem watched_unwritten {w : World} {s : Sight} (h : unwritten = some (w, s)) :
    Watched (.letters 0) limits 0 1 w s := by
  obtain ⟨⟨a, w₁⟩, hsubmit, hwatch⟩ := Option.bind_eq_some_iff.mp h
  exact watched_watch (watched_submit hsubmit (by decide +kernel)) hwatch

theorem watched_exhausted {w : World} {s : Sight} (h : exhausted = some (w, s)) :
    Watched (.letters 0) limits 0 1 w s := by
  obtain ⟨⟨a, w₁⟩, hsubmit, h⟩ := Option.bind_eq_some_iff.mp h
  obtain ⟨⟨b, w₂⟩, habandon, hwatch⟩ := Option.bind_eq_some_iff.mp h
  have hqueued : Watched (.letters 0) limits 0 1 w₁ .empty :=
    watched_submit hsubmit (by decide +kernel)
  have hrequested : Elsewhere (.letters 0) limits 1 w₁ w₂ :=
    .inl ⟨0, abandon, trivial, fun h => (by cases h), (exec_effect habandon).2⟩
  exact watched_watch (hqueued.elsewhere hrequested) hwatch

/-- The row after the interrupted run, with two divergences. -/
theorem interrupted_row : ∃ w s r, interrupted = some (w, s) ∧ Tracked 0 1 w r ∧
    r.delta.status.divergenceCount = 2 ∧ s.looks.map (·.seen) = [.diverged, .unread, .diverged] := by
  have hrun : interrupted.any (fun x => (x.1.db.rowAt 1).any (fun r => decide (r.id = 0 ∧
      r.delta.status.isCandidate = true ∧ r.delta.status.divergenceCount = 2 ∧
      x.2.looks.map (·.seen) = [.diverged, .unread, .diverged]))) = true := by decide +kernel
  obtain ⟨⟨w, s⟩, hrun, hrow⟩ := (Option.any_eq_true ..).mp hrun
  obtain ⟨r, hr, htest⟩ := (Option.any_eq_true ..).mp hrow
  obtain ⟨hmem, hnonce⟩ := Db.rowAt_eq_some.mp hr
  obtain ⟨hid, hcandidate, hcount, hlooks⟩ := of_decide_eq_true htest
  exact ⟨w, s, r, hrun, ⟨hmem, hid, hnonce, hcandidate⟩, hcount, hlooks⟩

/-- The row after the look that was not written. -/
theorem unwritten_row : ∃ w s r, unwritten = some (w, s) ∧ Tracked 0 1 w r ∧
    r.delta.status.divergenceCount = 0 ∧ s.looks = [⟨.diverged, false, false⟩] := by
  have hrun : unwritten.any (fun x => (x.1.db.rowAt 1).any (fun r => decide (r.id = 0 ∧
      r.delta.status.isCandidate = true ∧ r.delta.status.divergenceCount = 0 ∧
      x.2.looks = [⟨.diverged, false, false⟩]))) = true := by decide +kernel
  obtain ⟨⟨w, s⟩, hrun, hrow⟩ := (Option.any_eq_true ..).mp hrun
  obtain ⟨r, hr, htest⟩ := (Option.any_eq_true ..).mp hrow
  obtain ⟨hmem, hnonce⟩ := Db.rowAt_eq_some.mp hr
  obtain ⟨hid, hcandidate, hcount, hlooks⟩ := of_decide_eq_true htest
  exact ⟨w, s, r, hrun, ⟨hmem, hid, hnonce, hcandidate⟩, hcount, hlooks⟩

end MovedPast

/-- Two divergences with a failed read between them: both are counted. -/
theorem candidate_counters_are_runs_interrupted :
    ∃ w s r, Watched (.letters 0) MovedPast.limits 0 1 w s ∧ Tracked 0 1 w r ∧
      s.looks.map (·.seen) = [.diverged, .unread, .diverged] ∧ divergenceRun s.looks = 2 := by
  obtain ⟨w, s, r, hrun, hr, hcount, hlooks⟩ := MovedPast.interrupted_row
  have hwatched := MovedPast.watched_interrupted hrun
  obtain ⟨hdivergence, -⟩ := (candidate_counters_are_runs hwatched).1 r hr
  have hunmatched : Unmatched (divergenceSpan s.looks) := by
    intro l hl hlanded
    have hmem : l.seen ∈ s.looks.map (·.seen) :=
      List.mem_map_of_mem (List.takeWhile_subset _ hl)
    rw [hlooks, hlanded] at hmem
    exact absurd hmem (by decide)
  exact ⟨w, s, r, hwatched, hr, hlooks, (hdivergence hunmatched).symm.trans hcount⟩

/-- A failed read is no observation: it ends no run of divergences, and a candidate
that is to be abandoned is finalized, with its retries used up, without having been
seen at its base once. Nor is a divergence counted whose write is refused. -/
theorem failed_reads_break_no_run :
    (¬∀ w s r, Watched (.letters 0) MovedPast.limits 0 1 w s → Tracked 0 1 w r →
      r.delta.status.divergenceCount = currentRun (fun l => l.seen = .diverged) s.looks) ∧
    (¬∀ w s r, Watched (.letters 0) MovedPast.limits 0 1 w s → Tracked 0 1 w r →
      (∀ l ∈ s.looks, l.seen = .diverged) →
      r.delta.status.divergenceCount = currentRun (fun l => l.seen = .diverged) s.looks) ∧
    (¬∀ w s, Watched (.letters 0) MovedPast.limits 0 1 w s → ∀ e ∈ s.endings,
      e.status = some (.discardedClientAbandoned 100) →
      MovedPast.limits.abandonQuarantineChecks ≤ currentRun (fun l => l.seen = .atBase) e.looks) := by
  refine ⟨?_, ?_, ?_⟩
  · intro hall
    obtain ⟨w, s, r, hrun, hr, hcount, hlooks⟩ := MovedPast.interrupted_row
    have hclaim := hall w s r (MovedPast.watched_interrupted hrun) hr
    have hrun : currentRun (fun l => l.seen = .diverged) s.looks = 1 := by
      have hmap : currentRun (fun l => l.seen = .diverged) s.looks =
          currentRun (· = Observation.diverged) (s.looks.map (·.seen)) := by
        rw [currentRun, currentRun, List.takeWhile_map, List.length_map]
        rfl
      rw [hmap, hlooks]
      decide
    omega
  · intro hall
    obtain ⟨w, s, r, hrun, hr, hcount, hlooks⟩ := MovedPast.unwritten_row
    have hclaim := hall w s r (MovedPast.watched_unwritten hrun) hr
    rw [hlooks, hcount] at hclaim
    exact absurd (hclaim (by decide)) (by decide)
  · intro hall
    have hrun : MovedPast.exhausted.any (fun x => x.2.endings.any (fun e =>
        decide (e.status = some (.discardedClientAbandoned 100) ∧
          currentRun (fun l => l.seen = .atBase) e.looks = 0))) = true := by decide +kernel
    obtain ⟨⟨w, s⟩, hrun, hending⟩ := (Option.any_eq_true ..).mp hrun
    obtain ⟨e, he, htest⟩ := List.any_eq_true.mp hending
    obtain ⟨hstatus, hzero⟩ := of_decide_eq_true htest
    have hclaim := hall w s (MovedPast.watched_exhausted hrun) e he hstatus
    rw [hzero] at hclaim
    exact absurd hclaim (by decide)

end Guardian
