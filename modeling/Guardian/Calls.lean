import Guardian.System

/- What the procedures of the server call, whatever the answers to the calls
   before were. `makes_<procedure>` says that every call satisfies `P` as soon as
   the quiet ones do and each write the procedure makes does, with what the
   procedure computed for it: an acknowledged delta leads from its base to its
   post commitment, a status write is computed from the row it names. -/
namespace Guardian

open Interleaving Service

/-- A delta as the server queues it: a fresh candidate that leads from its base
to its post commitment. -/
def Queues (net : Network) (delta : DeltaObject) : Prop :=
  (∃ t, delta.status = .newCandidate t) ∧
    ∃ new, delta.newCommitment = some new ∧
      net.Leads delta.prevCommitment delta.deltaPayload new

/-- The signers an applied state reports are its document's: `apply_delta`
reported them, or they were read from the document. -/
def AppliedState.Lists (net : Network) (applied : AppliedState) : Prop :=
  (∃ s p, net.applyDelta s p = some applied) ∨
    applied.cosigners.Perm (net.chainCosigners applied.stateJson)

/-- Calls nothing is asked of: reads, the clock, leases, and the writes that
touch neither rows, state, signers nor whose an execution is. -/
def Op.quiet : Op → Bool
  | .write (.submitCandidate ..) | .write (.submitState ..) | .write (.replaceState ..)
  | .write (.createMetadata _) | .write (.setMetadata _) | .write (.pruneSupersededDeltas _)
  | .commit (.promoteCandidate _) | .commit (.discardCandidate ..)
  | .commit (.updateCandidateStatus ..) | .commit (.admitExecutionCandidate _)
  | .commit (.resolveExecution ..) | .node (.submitTransaction ..)
  | .commit (.createExecutionReservation ..) | .commit (.claimExecutionReservation ..) => false
  | _ => true

variable {net : Network} {cfg : Config} {ε ε' α β : Type} {P : Op → Prop}

/-! ## Combinators -/

namespace Service

theorem makes_pure (a : α) : Makes P (pure a : Proc ε α) := trivial

theorem makes_fail (e : ε) : Makes P (fail e : Proc ε α) := trivial

theorem makes_write {s : Stmt} (h : P (.write s)) : Makes P (write s : Proc ε _) := Makes.op' h

theorem makes_node {n : NodeCall} (h : P (.node n)) : Makes P (node n : Proc ε _) := Makes.op' h

theorem makes_orFail {x : Proc ε (Option α)} {e : ε} (hx : Makes P x) : Makes P (orFail x e) :=
  hx.bind' fun a => match a with
    | some _ => trivial
    | none => trivial

theorem makes_absorb {x : Proc ε α} (hx : Makes P x) : Makes P (absorb x : Proc ε' _) :=
  hx.absorb'

theorem makes_fenced {fence : LeaseFence} {tx : Tx} (hb : P (.begin fence)) (hc : P (.commit tx)) :
    Makes P (fenced fence tx : Proc ε _) :=
  (Makes.op' hb).bind' fun _ => Makes.op' hc

/-- A check that ends the procedure. -/
theorem makes_guard {c : Prop} [Decidable c] {e : ε} {f : α → Proc ε β} {y : Proc ε β}
    (h : ¬c → Makes P y) : Makes P (if c then fail e >>= f else y) := by
  split
  · trivial
  · next hc => exact h hc

theorem returns_fail {Q : α → Prop} (e : ε) : Returns (fail e : Proc ε α) Q := Returns.throw' e

theorem returns_guard {c : Prop} [Decidable c] {e : ε} {f : α → Proc ε β} {y : Proc ε β}
    {Q : β → Prop} (h : ¬c → Returns y Q) : Returns (if c then fail e >>= f else y) Q := by
  split
  · exact Returns.throw' e
  · next hc => exact h hc

section Quiet
variable (hq : ∀ {o : Op}, o.quiet = true → P o)
include hq

theorem makes_now : Makes P (now : Proc ε _) := Makes.op' (hq rfl)

theorem makes_flag : Makes P (flag : Proc ε _) := Makes.op' (hq rfl)

theorem makes_query (q : Query) : Makes P (query q : Proc ε _) := Makes.op' (hq rfl)

theorem makes_lease (l : LeaseCall) : Makes P (lease l : Proc ε _) := Makes.op' (hq rfl)

theorem makes_pullState (e : ε) : Makes P (pullState e) :=
  (makes_orFail (makes_query hq _)).bind' fun s => match s with
    | some _ => trivial
    | none => trivial

theorem makes_accountMetadata : Makes P accountMetadata :=
  (makes_orFail (makes_query hq _)).bind' fun m => match m with
    | some _ => trivial
    | none => trivial

end Quiet

theorem makes_ensureAccountActive (m : AccountMetadata) : Makes P (ensureAccountActive m) := by
  unfold ensureAccountActive
  split <;> trivial

end Service

/-! ## Submissions and abandons -/

/-- What `reconstruct_tail` returns starts from the queue's tail. -/
theorem returns_reconstructTail (state : StateObject) (queue : List DeltaObject) :
    Returns (CandidateChain.reconstructTail net state queue)
      (fun t => t.1 = CandidateChain.tailCommitment queue state.commitment) := by
  unfold CandidateChain.reconstructTail
  split
  · next hnil =>
    refine Returns.pure' ?_
    simp [CandidateChain.tailCommitment, hnil]
  · next tail htail =>
    split
    · exact returns_fail _
    · split
      · next heq => exact Returns.pure' heq
      · exact returns_fail _

theorem makes_reconstructTail (state : StateObject) (queue : List DeltaObject) :
    Makes P (CandidateChain.reconstructTail net state queue) := by
  unfold CandidateChain.reconstructTail
  repeat' split
  all_goals trivial

theorem makes_ensureTailKeepsAuth (state : StateObject) (json : StateJson) (nonce : Option Nonce) :
    Makes P (CandidateChain.ensureTailKeepsAuth net state json nonce) := by
  unfold CandidateChain.ensureTailKeepsAuth
  repeat' split
  all_goals trivial

/-- The base a push at the queue's tail names is the tail's commitment. -/
theorem prevCommitment_eq_tail {stored base : Commitment} {queue : List DeltaObject}
    (h : classifyChainPosition stored (queue.map .of) base = .tail) :
    base = CandidateChain.tailCommitment queue stored := by
  rw [classifyChainPosition_eq_tail, List.getLast?_map] at h
  unfold CandidateChain.tailCommitment
  cases hl : queue.getLast? with
  | none => simpa [hl] using h
  | some tail =>
    have hnew : tail.newCommitment = some base := by simpa [hl, QueuedCandidate.of] using h
    simp [hnew]

theorem makes_resolveTarget (delta : DeltaObject) :
    Makes P (resolveTarget delta) := by
  unfold resolveTarget
  repeat' split
  all_goals trivial

section Procedures
variable (hq : ∀ {o : Op}, o.quiet = true → P o)
include hq

theorem makes_load (stored : Commitment) : Makes P (CandidateChain.load stored) := by
  unfold CandidateChain.load
  repeat' with_reducible first
    | exact makes_pure _
    | exact makes_query hq _
    | refine makes_orFail ?_
    | refine makes_guard fun _ => ?_
    | refine Makes.bind' ?_ fun _ => ?_

theorem makes_loadForAdmission (state : StateObject) (base : Commitment) :
    Makes P (CandidateChain.loadForAdmission state base) := by
  unfold CandidateChain.loadForAdmission
  repeat' with_reducible first
    | exact makes_pure _
    | exact makes_fail _
    | exact makes_query hq _
    | exact makes_load hq _
    | exact makes_pullState hq _
    | refine makes_orFail ?_
    | refine makes_absorb ?_
    | refine Makes.bind' ?_ fun _ => ?_
    | dsimp only
    | split

theorem makes_authorizePush (json : StateJson) (delta : DeltaObject) :
    Makes P (authorizePush net json delta) := by
  unfold authorizePush
  repeat' with_reducible first
    | exact makes_pure _
    | exact makes_fail _
    | exact makes_query hq _
    | refine makes_orFail ?_
    | refine Makes.bind' ?_ fun _ => ?_
    | dsimp only
    | split

omit hq in
theorem makes_commit {delta : DeltaObject} {new : Commitment} {now : Time}
    (hsubmit : ∀ {d now}, d.nonce = delta.nonce → Queues net d →
      P (.write (.submitCandidate d now cfg.candidatePolicy)))
    (h : net.Leads delta.prevCommitment delta.deltaPayload new) :
    Makes P (pushDelta.commit cfg delta new now) := by
  unfold pushDelta.commit
  refine Makes.bind' (makes_orFail (makes_write (hsubmit rfl ⟨⟨_, rfl⟩, new, rfl, h⟩))) fun _ => ?_
  split <;> trivial

theorem makes_pushDelta (delta : DeltaObject)
    (hsubmit : ∀ {d now}, d.nonce = delta.nonce → Queues net d →
      P (.write (.submitCandidate d now cfg.candidatePolicy))) :
    Makes P (pushDelta net cfg delta) := by
  unfold pushDelta
  repeat' with_reducible first
    | exact makes_fail _
    | exact makes_now hq
    | exact makes_flag hq
    | exact makes_query hq _
    | exact makes_accountMetadata hq
    | exact makes_ensureAccountActive _
    | exact makes_pullState hq _
    | exact makes_loadForAdmission hq _ _
    | exact makes_ensureTailKeepsAuth _ _ _
    | exact makes_authorizePush hq _ _
    | refine makes_orFail ?_
    | refine makes_guard fun _ => ?_
    | refine Makes.bind_of (makes_reconstructTail _ _) (returns_reconstructTail _ _) fun _ ht => ?_
    | refine makes_commit hsubmit ?_
    | refine Makes.bind' ?_ fun _ => ?_
    | dsimp only
    | split
  rename_i htail _ _ _ _ _ _ happlied _ _
  -- the delta was applied to the state behind the queue, which is the base it names
  obtain ⟨hstate, happly⟩ := Network.verifyAndApplyDelta_eq_some happlied
  rw [ht, ← prevCommitment_eq_tail htail] at hstate
  exact ⟨_, _, hstate, happly, rfl⟩

theorem makes_findTarget (nonce : Nonce) (named : Option (DeltaObject → Bool)) :
    Makes P (findTarget nonce named) := by
  unfold findTarget
  repeat' with_reducible first
    | exact makes_pure _
    | exact makes_fail _
    | exact makes_query hq _
    | refine makes_orFail ?_
    | refine Makes.bind' ?_ fun _ => ?_
    | dsimp only
    | split

theorem makes_abandonCandidate (nonce : Nonce) (named : Option (DeltaObject → Bool)) :
    Makes P (abandonCandidate net nonce named) := by
  unfold abandonCandidate
  repeat' with_reducible first
    | exact makes_pure _
    | exact makes_fail _
    | exact makes_now hq
    | exact makes_flag hq
    | exact makes_query hq _
    | refine makes_node ?_
    | exact makes_accountMetadata hq
    | exact makes_ensureAccountActive _
    | exact makes_pullState hq _
    | exact makes_findTarget hq _ _
    | exact makes_resolveTarget _
    | refine makes_orFail ?_
    | refine makes_guard fun _ => ?_
    | refine Makes.bind' ?_ fun _ => ?_
    | dsimp only
    | split
  · exact hq rfl
  · exact makes_write (hq rfl)

end Procedures

/-! ## Configurations -/

section Configure
open ConfigureAccount
variable {params : ConfigureAccountParams}

theorem makes_rejectDisallowedSchemes (registered schemes : List SignatureScheme) :
    Makes P (rejectDisallowedSchemes cfg registered schemes) := by
  induction schemes with
  | nil => trivial
  | cons scheme schemes ih =>
    unfold rejectDisallowedSchemes
    split
    · exact ih
    · trivial

/-- The checks pass on a state whose signers are those of the request. -/
theorem returns_validate : Returns (validate net params) (fun head =>
    net.getStateHead params.initialState = some head ∧
      (net.shouldUpdateAuth params.initialState params.auth).all (· = params.auth) = true) := by
  unfold validate
  refine returns_guard fun _ => returns_guard fun hauth => ?_
  split
  · next head hhead =>
    refine Returns.pure' ⟨hhead, ?_⟩
    cases hu : net.shouldUpdateAuth params.initialState params.auth <;> simp_all
  · exact returns_fail _

theorem makes_validate : Makes P (validate net params) := by
  unfold validate
  refine makes_guard fun _ => makes_guard fun _ => ?_
  split <;> trivial

/-- A `/configure` stores the state it was given, under its own commitment. -/
def StatesFit (net : Network) (P : Op → Prop) : Prop :=
  ∀ {state : StateObject}, net.IsState state.stateJson state.commitment →
    (∀ {created}, P (.write (.submitState state created))) ∧
      ∀ {expected}, P (.write (.replaceState state expected))

theorem makes_writeState (storedBase : Option StateHead) {state : StateObject} (created : Bool)
    (hstate : StatesFit net P) (h : net.IsState state.stateJson state.commitment) :
    Makes P (writeState storedBase state created) := by
  unfold writeState
  split
  · refine Makes.bind' (makes_orFail (makes_write (hstate h).2)) fun _ => ?_
    split <;> trivial
  · exact makes_orFail (makes_write (hstate h).1)

variable (hq : ∀ {o : Op}, o.quiet = true → P o)
include hq

theorem makes_unfinishedClaim (existing : Option AccountMetadata) :
    Makes P (unfinishedClaim existing) := by
  unfold unfinishedClaim
  repeat' with_reducible first
    | exact makes_pure _
    | exact makes_query hq _
    | refine Makes.bind' ?_ fun _ => ?_
    | dsimp only
    | split

theorem makes_storedHead : Makes P (storedHead net) := by
  unfold storedHead
  repeat' with_reducible first
    | exact makes_pure _
    | exact makes_query hq _
    | exact makes_pullState hq _
    | refine makes_orFail ?_
    | refine Makes.bind' ?_ fun _ => ?_
    | dsimp only
    | split

theorem makes_ensureOnChainState (commitment : Commitment) (newerStored : Option StateHead) :
    Makes P (ensureOnChainState commitment newerStored) := by
  unfold ensureOnChainState
  repeat' with_reducible first
    | exact makes_pure _
    | exact makes_fail _
    | refine makes_node ?_
    | refine makes_orFail ?_
    | refine Makes.bind' ?_ fun _ => ?_
    | dsimp only
    | split
  exact hq rfl

theorem makes_storedStateLanded (commitment : Commitment) :
    Makes P (storedStateLanded commitment) := by
  unfold storedStateLanded
  repeat' with_reducible first
    | exact makes_pure _
    | refine makes_node ?_
    | refine makes_orFail ?_
    | refine Makes.bind' ?_ fun _ => ?_
    | dsimp only
    | split
  all_goals exact hq rfl

theorem makes_ensureVouched (existing : Option AccountMetadata) (storedBase : Option StateHead)
    (head : StateHead) (vouch : Vouch) :
    Makes P (ensureVouched net params existing storedBase head vouch) := by
  unfold ensureVouched
  split
  · exact makes_ensureOnChainState hq _ _
  · split <;> trivial
  · trivial

theorem makes_ensureNotOlder (storedBase : Option StateHead) (head : StateHead) :
    Makes P (ensureNotOlder storedBase head) := by
  unfold ensureNotOlder
  repeat' with_reducible first
    | exact makes_pure _
    | exact makes_storedStateLanded hq _
    | refine makes_guard fun _ => ?_
    | refine Makes.bind' ?_ fun _ => ?_
    | dsimp only
    | split

theorem makes_clearRelease (vouch : Vouch) (created : Bool) (commitment : Commitment) :
    Makes P (clearRelease vouch created commitment) := by
  unfold clearRelease
  repeat' with_reducible first
    | exact makes_pure _
    | exact makes_query hq _
    | exact makes_ensureOnChainState hq _ _
    | refine makes_write ?_
    | refine makes_orFail ?_
    | refine Makes.bind' ?_ fun _ => ?_
    | dsimp only
    | split
  all_goals exact hq rfl

omit hq in
theorem makes_claim {auth : Auth} (hcreate : ∀ {metadata}, P (.write (.createMetadata metadata)))
    (existing : Option AccountMetadata) : Makes P (claim auth existing) := by
  unfold claim
  split
  · trivial
  · exact makes_orFail (makes_write hcreate)

theorem makes_claimed (existing : Option AccountMetadata) (created : Bool) :
    Makes P (claimed existing created) := by
  unfold claimed
  split
  · refine (makes_orFail (makes_query hq _)).bind' fun _ => ?_
    split <;> trivial
  · trivial

theorem makes_storedBaseOf (existing : Option AccountMetadata) :
    Makes P (storedBaseOf net existing) := by
  unfold storedBaseOf
  split
  · exact makes_storedHead hq
  · trivial

omit hq in
theorem makes_writeAuth {auth : Auth} (hset : ∀ {metadata}, P (.write (.setMetadata metadata)))
    (existing : Option AccountMetadata) : Makes P (writeAuth auth existing) := by
  unfold writeAuth
  split
  · exact makes_orFail (makes_write hset)
  · trivial

theorem makes_configureAccount (hstate : StatesFit net P)
    (hcreate : ∀ {metadata}, P (.write (.createMetadata metadata)))
    (hset : ∀ {metadata}, P (.write (.setMetadata metadata))) :
    Makes P (configureAccount net cfg params) := by
  unfold configureAccount
  refine (makes_orFail (makes_query hq _)).bind' fun existing => ?_
  refine (makes_unfinishedClaim hq _).bind' fun unfinished => ?_
  refine (makes_rejectDisallowedSchemes _ _).bind' fun _ => ?_
  refine Makes.bind_of makes_validate returns_validate fun head hvalid => ?_
  refine (makes_claim hcreate _).bind' fun created => ?_
  refine (makes_claimed hq _ _).bind' fun existing => ?_
  refine (makes_flag hq).bind' fun _ => makes_guard fun _ => ?_
  refine (makes_storedBaseOf hq _).bind' fun storedBase => ?_
  refine (makes_ensureVouched hq _ _ _ _).bind' fun _ => ?_
  refine (makes_ensureNotOlder hq _ _).bind' fun _ => ?_
  refine (makes_writeState _ _ hstate ⟨_, hvalid.1, rfl⟩).bind' fun _ => ?_
  exact (makes_writeAuth hset _).bind' fun _ => makes_clearRelease hq _ _ _

end Configure

/-! ## Executions -/

namespace Worker
variable (job : ExecutionJob)

theorem makes_ensureGuardedByThisGuardian :
    Makes P (ensureGuardedByThisGuardian cfg job) := by
  unfold ensureGuardedByThisGuardian
  split <;> trivial

theorem makes_ensureWithinHorizon (block : Nat) : Makes P (ensureWithinHorizon cfg job block) := by
  unfold ensureWithinHorizon
  split <;> trivial

/-- What the worker acknowledges leads from its base to the state it applied. -/
def Acknowledged (net : Network) (r : AppliedState × DeltaObject × Nat) : Prop :=
  r.2.1.newCommitment = some r.1.commitment ∧
    net.Leads r.2.1.prevCommitment r.2.1.deltaPayload r.1.commitment

theorem returns_approachBoundary : Returns (approachBoundary net cfg job) (Acknowledged net) := by
  unfold approachBoundary
  repeat' with_reducible first
    | exact returns_fail _
    | refine returns_guard fun _ => ?_
    | refine Returns.bind' fun _ => ?_
    | dsimp only
    | split
  rename_i happlied _ _ _ _ _ _ _ _ _ _ _ _
  obtain ⟨hstate, happly⟩ := Network.verifyAndApplyDelta_eq_some happlied
  exact Returns.pure' ⟨rfl, _, _, hstate, happly, rfl⟩

/-- An admission as the worker makes it. -/
def Admissible (net : Network) (cfg : Config) (a : CandidateAdmission) : Prop :=
  a.archiveParked = cfg.archivesSuperseded ∧ Queues net a.delta ∧
    a.delta.newCommitment = some a.evidence.expectedCommitment

variable (hq : ∀ {o : Op}, o.quiet = true → P o)
include hq

theorem makes_unlessShutDown : Makes P unlessShutDown :=
  (makes_flag hq).bind' fun _ => by split <;> trivial

theorem makes_executorStage : Makes P (executorStage job) :=
  (makes_unlessShutDown hq).bind' fun _ => (makes_flag hq).bind' fun _ => by split <;> trivial

theorem makes_renewal (fence : LeaseFence) (phase : ExecutionPhase) :
    Makes P (Renewal.attempt cfg fence phase : Proc ε _) := by
  unfold Renewal.attempt
  repeat' with_reducible first
    | exact makes_pure _
    | exact makes_now hq
    | exact makes_lease hq _
    | refine makes_fenced ?_ ?_
    | refine Makes.bind' ?_ fun _ => ?_
    | dsimp only
    | split
  all_goals exact hq rfl

theorem makes_releaseQuietly (fence : LeaseFence) : Makes P (releaseQuietly fence : Proc ε _) :=
  (makes_lease hq _).bind' fun _ => trivial

theorem makes_advance (phase : ExecutionPhase) : Makes P (advance cfg job phase) :=
  (makes_unlessShutDown hq).bind' fun _ => (makes_renewal hq _ _).bind' fun _ => by
    split <;> trivial

theorem makes_ensureAdmissible : Makes P (ensureAdmissible cfg job) := by
  unfold ensureAdmissible
  repeat' with_reducible first
    | exact makes_fail _
    | exact makes_query hq _
    | exact makes_unlessShutDown hq
    | exact makes_ensureGuardedByThisGuardian _
    | refine makes_orFail ?_
    | refine makes_guard fun _ => ?_
    | refine Makes.bind' ?_ fun _ => ?_
    | dsimp only
    | split

theorem makes_ensureSendable : Makes P ensureSendable := by
  unfold ensureSendable
  refine (makes_unlessShutDown hq).bind' fun _ =>
    (makes_orFail (makes_node (hq rfl))).bind' fun _ => ?_
  exact (makes_flag hq).bind' fun _ => by split <;> trivial

theorem makes_approachBoundary : Makes P (approachBoundary net cfg job) := by
  unfold approachBoundary
  repeat' with_reducible first
    | exact makes_pure _
    | exact makes_fail _
    | exact makes_now hq
    | exact makes_flag hq
    | exact makes_unlessShutDown hq
    | exact makes_pullState hq _
    | exact makes_ensureGuardedByThisGuardian _
    | exact makes_executorStage _ hq
    | exact makes_advance _ hq _
    | exact makes_ensureWithinHorizon _ _
    | exact makes_ensureAdmissible _ hq
    | exact makes_ensureSendable hq
    | refine makes_node ?_
    | refine makes_orFail ?_
    | refine makes_guard fun _ => ?_
    | refine Makes.bind' ?_ fun _ => ?_
    | dsimp only
    | split
  all_goals exact hq rfl

theorem makes_crossBoundary {applied : AppliedState} {acknowledged : DeltaObject} {block : Nat}
    (hqueue : ∀ {a}, Admissible net cfg a → P (.commit (.admitExecutionCandidate a)))
    (h : Acknowledged net (applied, acknowledged, block)) :
    Makes P (crossBoundary cfg job applied acknowledged block) := by
  unfold crossBoundary
  refine (makes_now hq).bind' fun now => ?_
  refine Makes.bind' (makes_orFail (makes_fenced (hq rfl) (hqueue ?_))) fun _ => ?_
  · exact ⟨rfl, ⟨⟨now, rfl⟩, applied.commitment, h⟩, h.1⟩
  · split <;> trivial

theorem makes_runToBoundary
    (hqueue : ∀ {a}, Admissible net cfg a → P (.commit (.admitExecutionCandidate a))) :
    Makes P (runToBoundary net cfg job) :=
  (makes_approachBoundary job hq).bind_of (returns_approachBoundary job) fun _ h =>
    (makes_crossBoundary job hq hqueue h).bind' fun _ => trivial

theorem makes_claimSend (retries : Nat) : Makes P (claimSend cfg job retries) := by
  induction retries with
  | zero => trivial
  | succ retries ih =>
    unfold claimSend
    repeat' with_reducible first
      | exact ih
      | exact makes_pure _
      | exact makes_flag hq
      | exact makes_renewal hq _ _
      | refine Makes.bind' ?_ fun _ => ?_
      | dsimp only
      | split

theorem makes_resolve (failure : ExecutionFailureCode) (crossed : Bool)
    (hresolve : ∀ {r}, P (.commit (.resolveExecution r crossed))) :
    Makes P (resolve job failure crossed) :=
  (makes_now hq).bind' fun _ => (makes_fenced (hq rfl) hresolve).bind' fun _ => trivial

theorem makes_submit (evidence : SubmissionEvidence)
    (hresolve : ∀ {r crossed}, P (.commit (.resolveExecution r crossed)))
    (hsend : ∀ {p a e}, P (.node (.submitTransaction p a e))) :
    Makes P (submit job evidence) := by
  unfold submit
  refine (makes_node hsend).bind' fun _ => ?_
  split
  · exact makes_resolve job hq _ _ hresolve
  · exact makes_resolve job hq _ _ hresolve
  · trivial
  · trivial

theorem makes_runExecution
    (hqueue : ∀ {a}, Admissible net cfg a → P (.commit (.admitExecutionCandidate a)))
    (hresolve : ∀ {r crossed}, P (.commit (.resolveExecution r crossed)))
    (hsend : ∀ {p a e}, P (.node (.submitTransaction p a e))) :
    Makes P (runExecution net cfg job) := by
  unfold runExecution
  repeat' with_reducible first
    | exact makes_pure _
    | exact makes_runToBoundary _ hq hqueue
    | exact makes_claimSend _ hq _
    | exact makes_submit _ hq _ hresolve hsend
    | exact makes_resolve _ hq _ _ hresolve
    | exact makes_releaseQuietly hq _
    | refine makes_absorb ?_
    | refine Makes.bind' ?_ fun _ => ?_
    | dsimp only
    | split

end Worker

section Execute
variable (hq : ∀ {o : Op}, o.quiet = true → P o)

theorem makes_answerActive (active : ExecutionRecord) (proposalId : String) :
    Makes P (answerActive active proposalId) := by
  unfold answerActive
  split <;> trivial

include hq

theorem makes_alreadyExecuting (proposalId : String) : Makes P (alreadyExecuting proposalId) := by
  unfold alreadyExecuting
  refine (makes_orFail (makes_query hq _)).bind' fun _ => ?_
  split
  · exact makes_answerActive _ _
  · trivial

theorem makes_pendingProposal (proposalId : String) : Makes P (pendingProposal proposalId) := by
  unfold pendingProposal
  refine (makes_orFail (makes_query hq _)).bind' fun _ => ?_
  repeat' split
  all_goals trivial

theorem makes_reserveAndRun
    (hcreate : ∀ {p f t}, P (.commit (.createExecutionReservation p f t)))
    (params : RequestExecutionParams) (proposal : DeltaObject)
    (scheme : SignatureScheme) (guardian : Option String) (row : LeaseRow)
    (hrun : ∀ job, Makes P (Worker.runExecution net cfg job)) :
    Makes P (reserveAndRun net cfg params proposal scheme guardian row) := by
  unfold reserveAndRun
  repeat' with_reducible first
    | exact makes_pure _
    | exact makes_fail _
    | exact makes_flag hq
    | exact makes_query hq _
    | exact Worker.makes_releaseQuietly hq _
    | exact makes_alreadyExecuting hq _
    | exact hrun _
    | refine makes_fenced ?_ ?_
    | refine makes_orFail ?_
    | refine makes_guard fun _ => ?_
    | refine Makes.bind' ?_ fun _ => ?_
    | dsimp only
    | split
  all_goals first
    | exact hq rfl
    | exact hcreate

omit hq

/-- The end of a request: it acquires the account's lease and runs under it. -/
def acquireAndRun (net : Network) (cfg : Config) (params : RequestExecutionParams)
    (proposal : DeltaObject) (scheme : SignatureScheme) (guardian : Option String) :
    Service Unit := do
  match ← orFail (lease (.tryAcquire executionLease params.holderId cfg.executionLeaseTtl))
      .storageError with
  | none => alreadyExecuting params.proposalId
  | some row => reserveAndRun net cfg params proposal scheme guardian row

/-- A property of procedures that a first part of quiet calls does not affect. -/
structure AfterQuiet (Z : {α : Type} → Service α → Prop) : Prop where
  quiet : ∀ {α : Type} {x : Service α}, Makes (fun o => o.quiet = true) x → Z x
  seq : ∀ {α β : Type} {x : Service α} {f : α → Service β}, Makes (fun o => o.quiet = true) x →
    (∀ a, Z (f a)) → Z (x >>= f)

theorem AfterQuiet.guard {Z : {α : Type} → Service α → Prop} (hZ : AfterQuiet Z) {c : Prop}
    [Decidable c] {e : GuardianError} {f : α → Service β} {y : Service β} (h : Z y) :
    Z (if c then fail e >>= f else y) := by
  split
  · exact hZ.quiet (makes_fail e)
  · exact h

/-- A request is quiet up to the lease. -/
theorem AfterQuiet.requestExecution {Z : {α : Type} → Service α → Prop} (hZ : AfterQuiet Z)
    (params : RequestExecutionParams)
    (hrun : ∀ proposal scheme guardian, Z (acquireAndRun net cfg params proposal scheme guardian)) :
    Z (requestExecution net cfg params) := by
  have hq : ∀ {o : Op}, o.quiet = true → o.quiet = true := id
  unfold Guardian.requestExecution
  refine hZ.seq (makes_accountMetadata hq) fun metadata => ?_
  refine hZ.seq (makes_flag hq) fun _ => hZ.guard ?_
  refine hZ.seq (makes_ensureAccountActive _) fun _ => ?_
  refine hZ.seq (makes_pendingProposal hq _) fun proposal => ?_
  refine hZ.seq (makes_flag hq) fun _ => hZ.guard ?_
  refine hZ.seq (makes_orFail (makes_query hq _)) fun active => ?_
  split
  · exact hZ.quiet (makes_answerActive _ _)
  refine hZ.seq (makes_orFail (makes_query hq _)) fun pending => hZ.guard ?_
  refine hZ.seq (makes_pullState hq _) fun currentState => hZ.guard ?_
  refine hZ.seq (makes_flag hq) fun _ => hZ.guard ?_
  refine hZ.seq (makes_flag hq) fun _ => hZ.guard ?_
  refine hZ.seq (makes_flag hq) fun _ => ?_
  split
  · exact hZ.quiet (makes_alreadyExecuting hq _)
  · exact hrun _ _ _

include hq

theorem makes_requestExecution
    (hcreate : ∀ {p f t}, P (.commit (.createExecutionReservation p f t)))
    (params : RequestExecutionParams)
    (hrun : ∀ job, Makes P (Worker.runExecution net cfg job)) :
    Makes P (requestExecution net cfg params) := by
  have hZ : AfterQuiet (fun x => Makes P x) :=
    ⟨fun hx => hx.mono fun _ => hq, fun hx hf => (hx.mono fun _ => hq).bind' hf⟩
  refine hZ.requestExecution params fun proposal scheme guardian => ?_
  refine (makes_orFail (makes_lease hq _)).bind' fun row => ?_
  split
  · exact makes_alreadyExecuting hq _
  · exact makes_reserveAndRun hq hcreate _ _ _ _ _ hrun

namespace Reconciler

theorem makes_takeOwnership
    (hclaim : ∀ {e f t}, P (.commit (.claimExecutionReservation e f t))) (holderId : String)
    (record : ExecutionRecord) : Makes P (takeOwnership cfg holderId record) := by
  unfold takeOwnership
  repeat' with_reducible first
    | exact makes_pure _
    | exact makes_lease hq _
    | exact Worker.makes_releaseQuietly hq _
    | refine makes_fenced ?_ ?_
    | refine Makes.bind' ?_ fun _ => ?_
    | dsimp only
    | split
  all_goals first
    | exact hq rfl
    | exact hclaim

theorem makes_observe (evidence : SubmissionEvidence) : Makes P (observe evidence) := by
  unfold observe movedOn observe.atBase
  repeat' with_reducible first
    | exact makes_pure _
    | refine makes_node ?_
    | refine makes_orFail ?_
    | refine Makes.bind' ?_ fun _ => ?_
    | dsimp only
    | split
  all_goals exact hq rfl

theorem makes_hold (fence : LeaseFence) (expiresAt : Time) : Makes P (hold fence expiresAt) :=
  (makes_fenced (hq rfl) (hq rfl)).bind' fun _ => Worker.makes_releaseQuietly hq _

theorem makes_renewAfterObserving (fence : LeaseFence) : Makes P (renewAfterObserving cfg fence) := by
  unfold renewAfterObserving
  repeat' with_reducible first
    | exact makes_pure _
    | exact makes_now hq
    | exact Worker.makes_renewal hq _ _
    | exact Worker.makes_releaseQuietly hq _
    | refine Makes.bind' ?_ fun _ => ?_
    | dsimp only
    | split

theorem makes_settle (record : ExecutionRecord) (fence : LeaseFence) (expiresAt : Time)
    (observed : Observed) (hresolve : ∀ {r crossed}, P (.commit (.resolveExecution r crossed))) :
    Makes P (settle record fence expiresAt observed) := by
  unfold settle
  repeat' with_reducible first
    | exact makes_pure _
    | exact makes_now hq
    | exact Worker.makes_releaseQuietly hq _
    | exact makes_hold hq _ _
    | refine makes_fenced ?_ ?_
    | refine Makes.bind' ?_ fun _ => ?_
    | dsimp only
    | split
  all_goals first
    | exact hresolve
    | exact hq rfl

theorem makes_pass (hclaim : ∀ {e f t}, P (.commit (.claimExecutionReservation e f t)))
    (holderId : String) (kind : PassKind) (restarted : Bool)
    (hresolve : ∀ {r crossed}, P (.commit (.resolveExecution r crossed))) :
    Makes P (pass cfg holderId kind restarted) := by
  unfold pass reconcile reconcile.observeInTime
  repeat' with_reducible first
    | exact makes_pure _
    | exact makes_fail _
    | exact makes_now hq
    | exact makes_flag hq
    | exact makes_query hq _
    | exact makes_takeOwnership hq hclaim _ _
    | exact makes_observe hq _
    | exact makes_hold hq _ _
    | exact makes_renewAfterObserving hq _
    | exact makes_settle hq _ _ _ _ hresolve
    | exact Worker.makes_releaseQuietly hq _
    | refine makes_fenced ?_ ?_
    | refine makes_orFail ?_
    | refine makes_absorb ?_
    | refine makes_guard fun _ => ?_
    | refine Makes.bind' ?_ fun _ => ?_
    | dsimp only
    | split
  all_goals first
    | exact hresolve
    | exact hq rfl

end Reconciler
end Execute
end Guardian
