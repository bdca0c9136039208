import Guardian.Calls
import Guardian.Effects

/- What the passes call. A pass writes three kinds of rows: a status or a
   deletion computed from a row it read, a promotion of an applied state, and
   the prune of the archive. `WritesFit`, `PromotionsFit` say what `P` has to
   hold of for the first two; the handlers that do not promote ask only for the
   first. -/
namespace Guardian

open Interleaving Service

/-- `d` is `delta` as a handler carries it on: the same row, with counters that
may have been reset. -/
def Carries (d delta : DeltaObject) : Prop :=
  d.nonce = delta.nonce ∧ d.prevCommitment = delta.prevCommitment ∧
    d.newCommitment = delta.newCommitment ∧ d.deltaPayload = delta.deltaPayload ∧
    d.status.isCandidate = delta.status.isCandidate

theorem Carries.refl (delta : DeltaObject) : Carries delta delta := ⟨rfl, rfl, rfl, rfl, rfl⟩

/-- A status a pass writes over a candidate: retained, client-abandoned, or the
candidate's own with its counters moved. -/
def Settles (d : DeltaObject) (status : DeltaStatus) : Prop :=
  status.isRetained = true ∨ status.isClientAbandoned = true ∨
    status.isCandidate = d.status.isCandidate

/-- The writes computed from `delta`; a candidate is deleted only where
retention is off. -/
structure WritesFit (cfg : Config) (P : Op → Prop) (delta : DeltaObject) : Prop where
  update : ∀ {d status}, Carries d delta → Settles d status →
    P (.commit (.updateCandidateStatus d.nonce status d))
  discard : ∀ {d}, Carries d delta → cfg.retainedTtlSeconds = 0 →
    P (.commit (.discardCandidate d.nonce .candidate d))

theorem WritesFit.carry {cfg : Config} {P : Op → Prop} {d delta : DeltaObject}
    (h : WritesFit cfg P delta) (hd : Carries d delta) : WritesFit cfg P d := by
  have htrans : ∀ {d'}, Carries d' d → Carries d' delta := fun h' =>
    ⟨h'.1.trans hd.1, h'.2.1.trans hd.2.1, h'.2.2.1.trans hd.2.2.1,
      h'.2.2.2.1.trans hd.2.2.2.1, h'.2.2.2.2.trans hd.2.2.2.2⟩
  exact ⟨fun h' => h.update (htrans h'), fun h' => h.discard (htrans h')⟩

/-- A promotion of `delta` to the applied state. -/
structure Promotes (net : Network) (delta : DeltaObject) (applied : AppliedState)
    (source : PromotableKind) (p : CandidatePromotion) : Prop where
  state : p.state = ⟨applied.stateJson, applied.commitment, applied.nonce⟩
  delta : ∃ now, p.delta =
    { delta with newCommitment := some applied.commitment, status := .canonical now }
  source : p.source = source
  auth : ∃ auth, p.newAuth = applied.updatedAuth auth

namespace Processor
variable {net : Network} {cfg : Config} {fence : LeaseFence} {P : Op → Prop} {delta : DeltaObject}

/-! ## Handlers -/

theorem makes_ensureLeaseKept (outcome : CanonicalWrite) : Makes P (ensureLeaseKept outcome) := by
  unfold ensureLeaseKept
  split <;> trivial

variable (hq : ∀ {o : Op}, o.quiet = true → P o)
include hq

theorem makes_updateCandidateStatus {status : DeltaStatus}
    (h : P (.commit (.updateCandidateStatus delta.nonce status delta))) :
    Makes P (updateCandidateStatus fence delta status) :=
  makes_orFail (makes_fenced (hq rfl) h)

theorem makes_deleteMatchingProposal (delta : DeltaObject) :
    Makes P (deleteMatchingProposal net delta) := by
  unfold deleteMatchingProposal
  repeat' with_reducible first
    | exact makes_pure _
    | exact makes_query hq _
    | refine makes_write ?_
    | refine Makes.bind' ?_ fun _ => ?_
    | dsimp only
    | split
  exact hq rfl

theorem makes_releaseAccountIfQueueEmpty : Makes P releaseAccountIfQueueEmpty := by
  unfold releaseAccountIfQueueEmpty
  repeat' with_reducible first
    | exact makes_pure _
    | exact makes_query hq _
    | refine makes_write ?_
    | refine Makes.bind' ?_ fun _ => ?_
    | dsimp only
    | split
  exact hq rfl

theorem makes_removeDelta {kind : DeltaStatusKind}
    (h : P (.commit (.discardCandidate delta.nonce kind delta))) :
    Makes P (removeDelta net fence delta kind) := by
  unfold removeDelta
  repeat' with_reducible first
    | exact makes_pure _
    | exact makes_deleteMatchingProposal hq _
    | refine makes_fenced ?_ h
    | refine makes_orFail ?_
    | refine Makes.bind' ?_ fun _ => ?_
    | dsimp only
    | split
  exact hq rfl

section Candidate
variable (hw : WritesFit cfg P delta)
include hw

omit hq in
/-- A status write computed from the row as it was read. -/
theorem WritesFit.own {status : DeltaStatus} (h : Settles delta status) :
    P (.commit (.updateCandidateStatus delta.nonce status delta)) := hw.update (.refl delta) h

theorem makes_retainCandidate (reason : RetainReason) (now : Time) :
    Makes P (retainCandidate net fence delta reason now) := by
  unfold retainCandidate
  repeat' with_reducible first
    | exact makes_pure _
    | exact makes_deleteMatchingProposal hq _
    | exact makes_releaseAccountIfQueueEmpty hq
    | refine makes_updateCandidateStatus hq ?_
    | refine Makes.bind' ?_ fun _ => ?_
    | dsimp only
    | split
  exact WritesFit.own hw (.inl rfl)

theorem makes_parkCandidate (reason : RetainReason) (now : Time) :
    Makes P (parkCandidate net cfg fence delta reason now) := by
  unfold parkCandidate
  dsimp only
  split
  · exact (makes_retainCandidate hq hw reason now).bind' fun _ => makes_ensureLeaseKept _
  · next hoff =>
    have hdiscard := hw.discard (.refl delta) (Nat.eq_zero_of_not_pos hoff)
    exact (makes_removeDelta hq hdiscard).bind' fun _ => makes_ensureLeaseKept _

theorem makes_finalizeAbandonedCandidate : Makes P (finalizeAbandonedCandidate net fence delta) := by
  unfold finalizeAbandonedCandidate
  repeat' with_reducible first
    | exact makes_pure _
    | exact makes_now hq
    | exact makes_query hq _
    | exact makes_deleteMatchingProposal hq _
    | exact makes_releaseAccountIfQueueEmpty hq
    | exact makes_ensureLeaseKept _
    | refine makes_updateCandidateStatus hq ?_
    | refine Makes.bind' ?_ fun _ => ?_
    | dsimp only
    | split
  all_goals exact WritesFit.own hw (.inr (.inl rfl))

theorem makes_handleOrphanedCandidate : Makes P (handleOrphanedCandidate net cfg fence delta) := by
  unfold handleOrphanedCandidate
  split
  · exact makes_finalizeAbandonedCandidate hq hw
  · exact (makes_now hq).bind' fun _ => makes_parkCandidate hq hw _ _

theorem makes_handleAbandonConfirmation :
    Makes P (handleAbandonConfirmation net cfg fence delta) := by
  unfold handleAbandonConfirmation
  refine (makes_now hq).bind' fun _ => ?_
  dsimp only
  split
  · exact makes_finalizeAbandonedCandidate hq hw
  · have hsettles : Settles delta delta.status.withIncrementedAbandonConfirm :=
      .inr (.inr (by simp))
    exact (makes_updateCandidateStatus hq (WritesFit.own hw hsettles)).bind' fun _ =>
      makes_ensureLeaseKept _

theorem makes_handleDivergedCandidate : Makes P (handleDivergedCandidate net cfg fence delta) := by
  unfold handleDivergedCandidate
  split
  · have hsettles : Settles delta delta.status.withIncrementedDivergence := .inr (.inr (by simp))
    exact (makes_updateCandidateStatus hq (WritesFit.own hw hsettles)).bind' fun _ =>
      makes_ensureLeaseKept _
  · refine (makes_now hq).bind' fun _ => ?_
    split
    · exact makes_finalizeAbandonedCandidate hq hw
    · exact makes_parkCandidate hq hw _ _

theorem makes_handleUnverifiedCandidate :
    Makes P (handleUnverifiedCandidate net cfg fence delta) := by
  unfold handleUnverifiedCandidate
  repeat' with_reducible first
    | exact makes_pure _
    | exact makes_now hq
    | exact makes_finalizeAbandonedCandidate hq hw
    | exact makes_parkCandidate hq hw _ _
    | exact makes_ensureLeaseKept _
    | refine makes_updateCandidateStatus hq ?_
    | refine Makes.bind' ?_ fun _ => ?_
    | dsimp only
    | split
  exact WritesFit.own hw (.inr (.inr (by simp)))

theorem makes_resetDivergenceStreak : Makes P (resetDivergenceStreak fence delta) := by
  unfold resetDivergenceStreak
  split
  · trivial
  · have hsettles : Settles delta delta.status.withResetDivergence := .inr (.inr (by simp))
    exact (makes_updateCandidateStatus hq (WritesFit.own hw hsettles)).bind' fun _ =>
      (makes_ensureLeaseKept _).bind' fun _ => trivial

omit hq hw in
theorem returns_resetDivergenceStreak :
    Returns (resetDivergenceStreak fence delta) (Carries · delta) := by
  unfold resetDivergenceStreak
  split
  · exact Returns.pure' (.refl delta)
  · refine Returns.bind' fun outcome => Returns.bind' fun _ => Returns.pure' ?_
    split
    · exact ⟨rfl, rfl, rfl, rfl, by simp⟩
    · exact .refl delta

theorem makes_handleNotLanded : Makes P (handleNotLanded net cfg fence delta) := by
  unfold handleNotLanded
  refine (makes_resetDivergenceStreak hq hw).bind_of returns_resetDivergenceStreak fun d hd => ?_
  split
  · exact makes_handleAbandonConfirmation hq (hw.carry hd)
  · exact makes_handleUnverifiedCandidate hq (hw.carry hd)

/-! ## Promotion -/

omit hw in
theorem makes_canonicalizeVerifiedDelta {applied : AppliedState} {source : PromotableKind}
    (hp : ∀ {p}, Promotes net delta applied source p → P (.commit (.promoteCandidate p))) :
    Makes P (canonicalizeVerifiedDelta net cfg fence delta applied source) := by
  unfold canonicalizeVerifiedDelta releaseIfGuardianSwitched
  repeat' with_reducible first
    | exact makes_pure _
    | exact makes_fail _
    | exact makes_now hq
    | exact makes_query hq _
    | exact makes_accountMetadata hq
    | exact makes_pullState hq _
    | refine makes_write ?_
    | refine makes_fenced ?_ (hp ?_)
    | refine makes_orFail ?_
    | refine Makes.bind' ?_ fun _ => ?_
    | dsimp only
    | split
  all_goals first
    | exact hq rfl
    | exact ⟨rfl, ⟨_, rfl⟩, rfl, _, rfl⟩

/-! ## Candidates -/

/-- Every promotion is of a state whose signers are listed. -/
def PromotionsFit (net : Network) (P : Op → Prop) : Prop :=
  ∀ {delta applied source p}, applied.Lists net → Promotes net delta applied source p →
    P (.commit (.promoteCandidate p))

omit hq hw in
theorem PromotionsFit.of_lists (hp : PromotionsFit net P) {applied : AppliedState}
    (h : applied.Lists net) {source : PromotableKind} {p : CandidatePromotion}
    (hpromotes : Promotes net delta applied source p) : P (.commit (.promoteCandidate p)) :=
  hp h hpromotes

/-- Promotions of states that `apply_delta` returned. -/
def AppliedFit (net : Network) (P : Op → Prop) : Prop :=
  ∀ {s payload delta applied source p}, net.applyDelta s payload = some applied →
    Promotes net delta applied source p → P (.commit (.promoteCandidate p))

omit hq hw in
theorem PromotionsFit.applied (hp : PromotionsFit net P) : AppliedFit net P :=
  fun happlied h => hp (.inl ⟨_, _, happlied⟩) h

omit hw in
theorem makes_finishInterruptedPromotion (hp : PromotionsFit net P) (state : StateObject) :
    Makes P (finishInterruptedPromotion net cfg fence delta state) := by
  unfold finishInterruptedPromotion
  repeat' with_reducible first
    | exact makes_pure _
    | exact makes_fail _
    | refine makes_node ?_
    | refine makes_canonicalizeVerifiedDelta hq (hp.of_lists ?_)
    | refine makes_guard fun _ => ?_
    | refine Makes.bind' ?_ fun _ => ?_
    | dsimp only
    | split
  · exact hq rfl
  · next hbinding _ =>
    obtain ⟨_, _, rfl⟩ := Option.map_eq_some_iff.mp hbinding
    exact .inr (List.perm_insertionSort ..)

omit hw in
theorem makes_executedCandidateLanded (recomputed : Commitment) :
    Makes P (executedCandidateLanded delta recomputed) := by
  unfold executedCandidateLanded
  repeat' with_reducible first
    | exact makes_pure _
    | exact makes_query hq _
    | refine makes_node ?_
    | refine Makes.bind' ?_ fun _ => ?_
    | dsimp only
    | split
  exact hq rfl

theorem makes_settleFullCandidate {applied : AppliedState} (successors : List Commitment)
    (verified : Option StateVerification)
    (hp : ∀ {p}, Promotes net delta applied .candidate p → P (.commit (.promoteCandidate p))) :
    Makes P (settleFullCandidate net cfg fence delta applied successors verified) := by
  unfold settleFullCandidate
  repeat' with_reducible first
    | exact makes_canonicalizeVerifiedDelta hq hp
    | exact makes_handleNotLanded hq hw
    | exact makes_handleDivergedCandidate hq hw
    | exact makes_handleUnverifiedCandidate hq hw
    | exact makes_executedCandidateLanded hq _
    | refine Makes.bind' ?_ fun _ => ?_
    | dsimp only
    | split

theorem makes_processFullCandidate (hp : PromotionsFit net P) (successors : List Commitment) :
    Makes P (processFullCandidate net cfg fence delta successors) := by
  unfold processFullCandidate
  repeat' with_reducible first
    | exact makes_pure _
    | exact makes_fail _
    | exact makes_pullState hq _
    | exact makes_finishInterruptedPromotion hq hp _
    | exact makes_handleOrphanedCandidate hq hw
    | refine makes_settleFullCandidate hq hw _ _ (hp.of_lists ?_)
    | refine makes_node ?_
    | refine Makes.bind' ?_ fun _ => ?_
    | dsimp only
    | split
  · exact hq rfl
  · next happlied _ _ => exact .inl ⟨_, _, happlied⟩

omit hw in
theorem makes_processRecentCandidate (hp : AppliedFit net P) (successors : List Commitment) :
    Makes P (processRecentCandidate net cfg fence delta successors) := by
  unfold processRecentCandidate processRecentCandidate.promote
  repeat' with_reducible first
    | exact makes_pure _
    | exact makes_fail _
    | exact makes_pullState hq _
    | refine makes_node ?_
    | refine makes_orFail ?_
    | refine Makes.bind' ?_ fun _ => ?_
    | dsimp only
    | split
  · exact hq rfl
  all_goals
    next happlied _ => exact makes_canonicalizeVerifiedDelta hq (hp happlied)

theorem makes_processCandidate (hp : PromotionsFit net P) (mode : ProcessingMode)
    (successors : List Commitment) :
    Makes P (processCandidate net cfg fence mode delta successors) := by
  unfold processCandidate
  split
  · exact makes_processFullCandidate hq hw hp _
  · exact makes_processRecentCandidate hq hp.applied _

omit hw in
theorem makes_predecessorStillQueued (mode : ProcessingMode) (nonce : Option Nonce) :
    Makes P (predecessorStillQueued mode nonce) := by
  unfold predecessorStillQueued
  repeat' with_reducible first
    | exact makes_pure _
    | exact makes_query hq _
    | refine Makes.bind' ?_ fun _ => ?_
    | dsimp only
    | split

omit hw in
theorem makes_storedBase (isHead : Bool) : Makes P (storedBase isHead) := by
  unfold storedBase
  split
  · trivial
  · refine (makes_query hq _).bind' fun _ => ?_
    split <;> trivial

omit hw in
theorem makes_awaitsPredecessor (mode : ProcessingMode) (nonce : Option Nonce) (chains : Bool) :
    Makes P (awaitsPredecessor mode nonce chains) := by
  unfold awaitsPredecessor
  split
  · exact makes_predecessorStillQueued hq _ _
  · trivial

end Candidate

/-! ## Passes -/

section Passes
omit hq in
theorem makes_finish (error : Option GuardianError) : Makes P (reconcileAccount.finish error) := by
  unfold reconcileAccount.finish
  split <;> trivial

theorem makes_processQueue (mode : ProcessingMode) (isHead chainBroken : Bool)
    (predecessor : Option (Nonce × Option Commitment)) (firstError : Option GuardianError)
    {queue : List DeltaObject}
    (hcandidate : ∀ delta ∈ queue, ∀ successors,
      Makes P (processCandidate net cfg fence mode delta successors))
    (hqueue : ∀ delta ∈ queue, WritesFit cfg P delta) :
    Makes P (processQueue net cfg fence mode isHead chainBroken predecessor firstError queue) := by
  induction queue generalizing isHead chainBroken predecessor firstError with
  | nil => trivial
  | cons delta rest ih =>
    have hw := hqueue delta List.mem_cons_self
    have hrest := fun isHead chainBroken predecessor firstError =>
      ih isHead chainBroken predecessor firstError (fun d hd => hcandidate d (.tail _ hd))
        fun d hd => hqueue d (.tail _ hd)
    unfold processQueue
    repeat' with_reducible first
      | exact hrest _ _ _ _
      | exact makes_pure _
      | exact makes_flag hq
      | exact makes_storedBase hq _
      | exact hcandidate delta List.mem_cons_self _
      | exact makes_awaitsPredecessor hq _ _ _
      | exact makes_handleOrphanedCandidate hq hw
      | refine makes_absorb ?_
      | refine Makes.bind' ?_ fun _ => ?_
      | dsimp only
      | split

theorem makes_processCandidateList (mode : ProcessingMode) {queue : List DeltaObject}
    (hcandidate : ∀ delta ∈ queue, ∀ successors,
      Makes P (processCandidate net cfg fence mode delta successors))
    (hqueue : ∀ delta ∈ queue, WritesFit cfg P delta) :
    Makes P (processCandidateList net cfg fence mode queue) := by
  unfold processCandidateList
  refine (makes_now hq).bind' fun now => Makes.bind' (makes_processQueue hq _ _ _ _ _ ?_ ?_) ?_
  · intro delta hdelta
    split at hdelta
    · exact hcandidate delta hdelta
    · exact hcandidate delta (List.mem_of_mem_filter hdelta)
  · intro delta hdelta
    split at hdelta
    · exact hqueue delta hdelta
    · exact hqueue delta (List.mem_of_mem_filter hdelta)
  · intro error
    split <;> trivial

theorem makes_processFullPass (hp : PromotionsFit net P) (hw : ∀ delta, WritesFit cfg P delta) :
    Makes P (processFullPass net cfg fence) := by
  unfold processFullPass processAccount
  repeat' with_reducible first
    | exact makes_pure _
    | exact makes_flag hq
    | exact makes_query hq _
    | exact makes_accountMetadata hq
    | exact makes_processCandidateList hq _
        (fun delta _ _ => makes_processCandidate hq (hw delta) hp _ _) fun delta _ => hw delta
    | refine makes_write ?_
    | refine makes_orFail ?_
    | refine makes_absorb ?_
    | refine Makes.bind' ?_ fun _ => ?_
    | dsimp only
    | split
  exact hq rfl

variable (hp : AppliedFit net P)
include hp

theorem makes_processRecentPage (maxAge : Nat) {page : List DeltaObject}
    (hpage : ∀ delta ∈ page, WritesFit cfg P delta) :
    Makes P (processRecentPage net cfg fence maxAge page) := by
  have hcandidate : ∀ delta successors,
      Makes P (processCandidate net cfg fence (.promoteRecent maxAge) delta successors) :=
    fun _ successors => makes_processRecentCandidate hq hp successors
  unfold processRecentPage
  repeat' with_reducible first
    | exact makes_pure _
    | exact makes_now hq
    | exact makes_flag hq
    | exact makes_accountMetadata hq
    | refine makes_processCandidateList hq _ (fun delta _ => hcandidate delta)
        fun delta hdelta => hpage delta ?_
    | refine makes_absorb ?_
    | refine Makes.bind' ?_ fun _ => ?_
    | dsimp only
    | split
  exact List.mem_of_mem_filter ((List.mem_insertionSort _).mp hdelta)

theorem makes_processRecentPages (hw : ∀ delta, WritesFit cfg P delta) (maxAge : Nat) (cutoff : Time)
    (pages : List (Option RecentCandidateCursor)) (cursor : Option RecentCandidateCursor) :
    Makes P (processRecentPages net cfg fence maxAge cutoff pages cursor) := by
  induction pages generalizing cursor with
  | nil => trivial
  | cons next pages ih =>
    unfold processRecentPages
    repeat' with_reducible first
      | exact ih _
      | exact makes_pure _
      | exact makes_flag hq
      | exact makes_query hq _
      | exact makes_processRecentPage hq hp _ fun delta _ => hw delta
      | refine makes_orFail ?_
      | refine Makes.bind' ?_ fun _ => ?_
      | dsimp only
      | split

theorem makes_processRecentPass (hw : ∀ delta, WritesFit cfg P delta) (maxAge : Nat) (pages : List (Option RecentCandidateCursor))
    (cursor : Option RecentCandidateCursor) :
    Makes P (processRecentPass net cfg fence maxAge pages cursor) :=
  (makes_now hq).bind' fun _ => makes_processRecentPages hq hp hw _ _ _ _

theorem makes_promotePath {path : List (Recoverable × AppliedState)}
    (h : ∀ hop ∈ path, ∃ s payload, net.applyDelta s payload = some hop.2) :
    Makes P (promotePath net cfg fence path) := by
  induction path with
  | nil => trivial
  | cons hop path ih =>
    obtain ⟨s, payload, happlied⟩ := h hop List.mem_cons_self
    refine Makes.bind' (makes_canonicalizeVerifiedDelta hq (hp happlied)) fun _ => ih ?_
    exact fun hop' hmem => h hop' (.tail _ hmem)

omit hq hp in
/-- Every hop of a reconstructed path was applied. -/
theorem reconstructPath_applied {base : StateJson} {path : List Recoverable}
    {hops : List (Recoverable × AppliedState)} (h : reconstructPath net base path = some hops) :
    ∀ hop ∈ hops, ∃ s payload, net.applyDelta s payload = some hop.2 := by
  induction path generalizing base hops with
  | nil => cases h; simp
  | cons row path ih =>
    unfold reconstructPath at h
    split at h
    · cases h
    · next applied happlied =>
      split at h
      · obtain ⟨rest, hrest, rfl⟩ := Option.map_eq_some_iff.mp h
        intro hop hmem
        rcases List.mem_cons.mp hmem with rfl | hmem
        · exact ⟨_, _, happlied⟩
        · exact ih hrest hop hmem
      · cases h

theorem makes_reconcileSingleRow (state : StateObject) (onChain : Commitment)
    (live : List Recoverable) :
    Makes P (reconcileSingleRow net cfg fence state onChain live) := by
  induction live with
  | nil => trivial
  | cons row rows ih =>
    unfold reconcileSingleRow
    repeat' split
    all_goals first
      | exact ih
      | skip
    next happlied _ =>
      exact makes_canonicalizeVerifiedDelta hq (hp happlied)

theorem makes_reconcileChainAdvance (state : StateObject) (onChain : Commitment)
    (live : List Recoverable) :
    Makes P (reconcileChainAdvance net cfg fence state onChain live) := by
  unfold reconcileChainAdvance reconcileRecoverablePath
  dsimp only
  split
  · split
    · trivial
    · next hops hpath =>
      split
      · exact makes_promotePath hq hp (reconstructPath_applied hpath)
      · trivial
  · exact makes_reconcileSingleRow hq hp _ _ _

omit hp in
theorem makes_cleanUpProposals (live : List Recoverable) : Makes P (cleanUpProposals net live) := by
  induction live with
  | nil => trivial
  | cons row rows ih =>
    unfold cleanUpProposals
    dsimp only
    split
    · exact (makes_deleteMatchingProposal hq _).bind' fun _ => ih
    · exact ih

omit hp in
theorem makes_expireRecoverable (now : Time) (firstError : Option GuardianError)
    {rows : List DeltaObject}
    (hd : ∀ delta ∈ rows, delta.status.isClientAbandoned = false →
      cfg.retainedTtlSeconds ≤ now - delta.status.timestamp →
      P (.commit (.discardCandidate delta.nonce .retained delta))) :
    Makes P (expireRecoverable net cfg fence now firstError rows) := by
  induction rows generalizing firstError with
  | nil => trivial
  | cons delta rest ih =>
    have hrest := fun e => ih e fun d hmem => hd d (.tail _ hmem)
    unfold expireRecoverable
    dsimp only
    split
    · next hage =>
      split
      · exact hrest _
      · next hkind =>
        have hdrop := hd delta List.mem_cons_self (Bool.eq_false_of_not_eq_true hkind) hage
        refine Makes.bind' (makes_absorb (makes_removeDelta hq hdrop)) fun _ => ?_
        split
        · exact makes_fail _
        · exact hrest _
        · exact hrest _
    · exact (hrest _).bind' fun _ => trivial

theorem makes_reconcileAccount (interval : Option Nat)
    (hd : ∀ {delta}, P (.commit (.discardCandidate delta.nonce .retained delta)))
    (hprune : ∀ {before}, P (.write (.pruneSupersededDeltas before))) :
    Makes P (reconcileAccount net cfg fence interval) := by
  unfold reconcileAccount
  repeat' with_reducible first
    | exact makes_pure _
    | exact makes_now hq
    | exact makes_query hq _
    | exact makes_pullState hq _
    | exact makes_finish _
    | exact makes_cleanUpProposals hq _
    | exact makes_reconcileChainAdvance hq hp _ _ _
    | exact makes_expireRecoverable hq _ _ fun _ _ _ _ => hd
    | exact makes_write hprune
    | refine makes_node ?_
    | refine makes_orFail ?_
    | refine makes_guard fun _ => ?_
    | refine Makes.bind' ?_ fun _ => ?_
    | dsimp only
    | split
  exact hq rfl

theorem makes_processReconcilePass (interval : Option Nat)
    (hd : ∀ {delta}, P (.commit (.discardCandidate delta.nonce .retained delta)))
    (hprune : ∀ {before}, P (.write (.pruneSupersededDeltas before))) :
    Makes P (processReconcilePass net cfg fence interval) := by
  unfold processReconcilePass
  refine (makes_flag hq).bind' fun _ => ?_
  split
  · trivial
  · exact (makes_absorb (makes_reconcileAccount hq hp _ hd hprune)).bind' fun _ => trivial

end Passes
end Processor

/-! ## The whole server -/

/-- What is known of a write before it is made, from the procedure that makes
it alone. -/
def Op.Fits (net : Network) (cfg : Config) : Op → Prop
  | .write (.submitCandidate delta _ policy) =>
    policy = cfg.candidatePolicy ∧ Queues net delta
  | .write (.submitState state _) => net.IsState state.stateJson state.commitment
  | .write (.replaceState state _) => net.IsState state.stateJson state.commitment
  | .commit (.promoteCandidate p) =>
    ∃ delta applied source, applied.Lists net ∧ Promotes net delta applied source p
  | .commit (.discardCandidate nonce kind snapshot) => nonce = snapshot.nonce ∧
    (kind = .retained ∨ (kind = .candidate ∧ cfg.retainedTtlSeconds = 0))
  | .commit (.updateCandidateStatus nonce status snapshot) =>
    nonce = snapshot.nonce ∧ Settles snapshot status
  | .commit (.admitExecutionCandidate a) => Worker.Admissible net cfg a
  | _ => True

theorem Op.fits_of_quiet {net : Network} {cfg : Config} {o : Op} (h : o.quiet = true) :
    o.Fits net cfg := by
  cases o with
  | write s => cases s <;> trivial
  | commit tx => cases tx <;> trivial
  | query | begin | lease | node | now | flag | returns => trivial

/-- `P` holds of every call that `req`, other than a pass, makes. -/
structure CallsFit (net : Network) (cfg : Config) (req : Request) (P : Op → Prop) : Prop where
  quiet : ∀ {o : Op}, o.quiet = true → P o
  submit : ∀ {d delta now}, req = .push d → delta.nonce = d.nonce → Queues net delta →
    P (.write (.submitCandidate delta now cfg.candidatePolicy))
  state : req.isConfigure = true → StatesFit net P
  createMetadata : ∀ {metadata}, P (.write (.createMetadata metadata))
  setMetadata : ∀ {metadata}, P (.write (.setMetadata metadata))
  create : req.isExecution = true → ∀ p f t, P (.commit (.createExecutionReservation p f t))
  claim : req.isExecution = true → ∀ e f t, P (.commit (.claimExecutionReservation e f t))
  queue : req.isExecution = true → ∀ a, Worker.Admissible net cfg a →
    P (.commit (.admitExecutionCandidate a))
  resolve : req.isExecution = true → ∀ r crossed, P (.commit (.resolveExecution r crossed))
  send : req.isExecution = true → ∀ p a e, P (.node (.submitTransaction p a e))

/-- Whether the request is a pass over the account's rows. -/
def Request.isPass : Request → Bool
  | .fullPass _ | .recentPass .. | .reconcilePass .. => true
  | _ => false

theorem makes_program {net : Network} {cfg : Config} {P : Op → Prop} {req : Request}
    (h : CallsFit net cfg req P) (hpass : req.isPass = false) : Makes P (req.program net cfg) := by
  cases req with
  | push delta => exact makes_pushDelta h.quiet delta (h.submit rfl)
  | abandon nonce named => exact (makes_abandonCandidate h.quiet nonce named).bind' fun _ => trivial
  | configure params =>
    exact makes_configureAccount h.quiet (h.state rfl) h.createMetadata h.setMetadata
  | submitProposal record => exact (makes_write (h.quiet rfl)).bind' fun _ => trivial
  | pause =>
    exact (makes_now h.quiet).bind' fun _ => (makes_write (h.quiet rfl)).bind' fun _ => trivial
  | unpause => exact (makes_write (h.quiet rfl)).bind' fun _ => trivial
  | release expected =>
    exact (makes_now h.quiet).bind' fun _ => (makes_write (h.quiet rfl)).bind' fun _ => trivial
  | fullPass | recentPass | reconcilePass => cases hpass
  | execute params =>
    exact makes_requestExecution h.quiet (h.create rfl _ _ _) params fun job =>
      Worker.makes_runExecution job h.quiet (h.queue rfl _) (h.resolve rfl _ _) (h.send rfl _ _ _)
  | heartbeat fence phase => exact (Worker.makes_renewal h.quiet fence phase).bind' fun _ => trivial
  | reconcileExecutions holderId kind restarted =>
    exact Reconciler.makes_pass h.quiet (h.claim rfl _ _ _) holderId kind restarted (h.resolve rfl _ _)
  | acquireLease | renewLease | releaseLease =>
    exact (makes_lease h.quiet _).bind' fun _ => trivial

/-- `P` holds of every call of a process if it holds of those of its request and
of those of the passes. -/
theorem body_calls_of_fit {net : Network} {cfg : Config} {P : Op → Prop} {req : Request}
    (h : CallsFit net cfg req P) (hp : Processor.PromotionsFit net P)
    (hw : ∀ delta, WritesFit cfg P delta)
    (hd : ∀ {delta}, P (.commit (.discardCandidate delta.nonce .retained delta)))
    (hprune : ∀ {before}, P (.write (.pruneSupersededDeltas before))) :
    (body net cfg req).Calls P := by
  have hprogram : Makes P (req.program net cfg) := by
    cases req with
    | fullPass fence => exact Processor.makes_processFullPass h.quiet hp hw
    | recentPass fence maxAge pages cursor =>
      exact Processor.makes_processRecentPass h.quiet hp.applied hw maxAge pages cursor
    | reconcilePass fence interval =>
      exact Processor.makes_processReconcilePass h.quiet hp.applied interval hd hprune
    | _ => exact makes_program h rfl
  exact Prog.Calls.bind' hprogram fun _ => Prog.Calls.op' (h.quiet rfl)

/-- Every call of every process fits. -/
theorem body_calls (net : Network) (cfg : Config) (req : Request) :
    (body net cfg req).Calls (Op.Fits net cfg) :=
  body_calls_of_fit ⟨Op.fits_of_quiet, fun _ _ h => ⟨rfl, h⟩, fun _ _ h => ⟨h, h⟩, trivial, trivial,
      fun _ _ _ _ => trivial, fun _ _ _ _ => trivial, fun _ _ h => h, fun _ _ _ => trivial, fun _ _ _ _ => trivial⟩
    (fun hl h => ⟨_, _, _, hl, h⟩) (fun _ => ⟨fun _ h => ⟨rfl, h⟩, fun _ h => ⟨rfl, .inr ⟨rfl, h⟩⟩⟩)
    ⟨rfl, .inl rfl⟩ trivial

/-- An invariant kept by every call that fits and by every act of the
environment holds in every reachable configuration. -/
theorem Reachable.induct {net : Network} {cfg : Config} {G : RunGuard} {w₀ : World} {I : World → Prop}
    (h0 : I w₀)
    (hcall : ∀ {pid op w w'}, op.Fits net cfg → Effect pid w op w' → I w → I w')
    (hact : ∀ {w w'}, ActEffect net w w' → I w → I w') {c : SystemConf}
    (h : Reachable net cfg G w₀ c) : I c.world :=
  Reach.induct (K := fun _ op _ => op.Fits net cfg)
    (fun hr hp => hr.calls (fun req _ _ => body_calls net cfg req) hp) h0
    (fun hk _ hx hi => hcall hk (exec_effect hx).2 hi) (fun _ ha hi => hact (act_effect ha) hi) h

end Guardian
