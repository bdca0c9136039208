import Guardian.Safety.FileReservation
import Mathlib.Data.List.Pairwise

/- How a stopped execution ends on the filesystem.

   An active attempt is ended under a live lease by one operation: `fail_execution`
   short of the boundary, `resolve_execution` past it, `settle_promoted_execution`
   once its row is canonical. A lease that has expired can be claimed under any higher
   token. The removal deletes nothing but the candidate the attempt's admission wrote:
   the one its evidence describes or, without evidence, the one its marker names. -/
namespace Guardian

open Stops Files

section Records
variable {log : Admissions} {files : Files} {r r' : ExecutionRecord}

theorem isAttempt_iff {proposalId : String} {attempt : Nat} : r.isAttempt proposalId attempt = true ↔
    r.reservation.proposalId = proposalId ∧ r.reservation.attempt = attempt := by
  rw [ExecutionRecord.isAttempt, Bool.and_eq_true, beq_iff_eq, beq_iff_eq]

/-- An attempt has one record. -/
theorem Reserved.eq_of_attempt (h : Reserved log files) (hr : r ∈ files.executions)
    (hr' : r' ∈ files.executions) {proposalId : String} {attempt : Nat}
    (hkey : r.isAttempt proposalId attempt = true)
    (hkey' : r'.isAttempt proposalId attempt = true) : r = r' := by
  have hne : ∀ {a b : ExecutionRecord},
      b.isAttempt a.reservation.proposalId a.reservation.attempt = false →
      a.isAttempt proposalId attempt = true → b.isAttempt proposalId attempt = true → a = b := by
    intro a b hab ha hb
    obtain ⟨rfl, rfl⟩ := isAttempt_iff.mp ha
    rw [hab] at hb
    cases hb
  have hforward : files.executions.Pairwise (fun a b =>
      a.isAttempt proposalId attempt = true → b.isAttempt proposalId attempt = true → a = b) :=
    h.attempts.imp hne
  have hbackward : files.executions.Pairwise (flip fun a b =>
      a.isAttempt proposalId attempt = true → b.isAttempt proposalId attempt = true → a = b) :=
    h.attempts.imp fun hab hb ha => (hne hab ha hb).symm
  exact hforward.forall_of_forall_of_flip (fun _ _ _ _ => rfl) hbackward hr hr' hkey hkey'

theorem Reserved.find?_attempt (h : Reserved log files) (hr : r ∈ files.executions)
    {proposalId : String} {attempt : Nat} (hkey : r.isAttempt proposalId attempt = true) :
    files.executions.find? (·.isAttempt proposalId attempt) = some r := by
  cases hfind : files.executions.find? (·.isAttempt proposalId attempt) with
  | none => exact absurd hkey (List.find?_eq_none.mp hfind r hr)
  | some found =>
    have hfound : found.isAttempt proposalId attempt = true := by simpa using List.find?_some hfind
    rw [h.eq_of_attempt (List.mem_of_find?_eq_some hfind) hr hfound hkey]

theorem Reserved.activeExecution (h : Reserved log files) (hr : r ∈ files.executions)
    (hactive : r.isActive = true) : files.activeExecution = some r := by
  cases hfind : files.activeExecution with
  | none =>
    rw [activeExecution_none hfind hr] at hactive
    cases hactive
  | some found =>
    obtain ⟨hmem, hfound⟩ := activeExecution_some hfind
    rw [h.single hmem hr hfound hactive]

theorem ownsLive_fence {reservation : ExecutionReservation} {fence : LeaseFence} {now : Time}
    (h : reservation.ownsLive fence now = true) : reservation.fence = fence := by
  rw [ExecutionReservation.ownsLive, Bool.and_eq_true, beq_iff_eq] at h
  exact h.1

/-- Under a live lease the attempt's record is the one that is ended. -/
theorem Reserved.resolvable (h : Reserved log files) (hr : r ∈ files.executions)
    (hactive : r.isActive = true) {res : ExecutionResolution}
    (hkey : r.isAttempt res.proposalId res.attempt = true)
    (hlive : r.reservation.ownsLive res.fence res.now = true) : files.resolvable res = .ok r := by
  have hauthorizes : r.reservation.authorizes res.fence res.proposalId res.attempt = true := by
    obtain ⟨hproposal, hattempt⟩ := isAttempt_iff.mp hkey
    rw [ExecutionReservation.authorizes, ownsLive_fence hlive, hproposal, hattempt]
    simp
  rw [Files.resolvable, h.find?_attempt hr hkey]
  show (if r.outcome.isSome = true then _ else _) = _
  rw [(h.outcome hr).mp hactive, if_neg (by simp), hauthorizes, if_neg (by simp), hlive,
    if_neg (by simp)]

/-- What a resolution found. -/
theorem resolvable_ok {res : ExecutionResolution} (h : files.resolvable res = .ok r) :
    r ∈ files.executions ∧ r.isAttempt res.proposalId res.attempt = true ∧ r.outcome = none := by
  rw [Files.resolvable] at h
  split at h
  · cases h
  · rename_i record hfind
    split at h
    · cases h
    · rename_i houtcome
      split at h
      · cases h
      · split at h
        · cases h
        · cases h
          have hkey : r.isAttempt res.proposalId res.attempt = true := by
            simpa using List.find?_some hfind
          exact ⟨List.mem_of_find?_eq_some hfind, hkey, Option.not_isSome_iff_eq_none.mp houtcome⟩

end Records

/-! ## What is removed -/

section Removals
variable {log : Admissions} {files : Files}

/-- Everything but a candidate at this nonce is still there. -/
def KeepsOthers (files : Files) (nonce : Nonce) (f : Files) : Prop :=
  ∀ d ∈ files.deltas, d.nonce ≠ nonce ∨ d.status.isCandidate = false → d ∈ f.deltas

theorem keepsOthers_removeCandidate {nonce : Nonce} :
    ∀ write ∈ files.removeCandidate nonce, ∀ f, KeepsOthers files nonce f →
      KeepsOthers files nonce (write f) := by
  intro write hwrite f hf d hd hother
  rw [removeCandidate] at hwrite
  split at hwrite
  · rename_i hcandidate
    rw [List.mem_singleton.mp hwrite]
    refine mem_deleteDelta.mpr ⟨hf d hd hother, fun hnonce => ?_⟩
    obtain hne | hended := hother
    · exact hne hnonce
    · have hpull : files.pullDelta nonce = some d :=
        Table.find?_eq_some.mpr ⟨hd, congrArg BitVec.toNat hnonce⟩
      rw [hpull, Option.any_some, hended] at hcandidate
      cases hcandidate
  · cases hwrite

/-- A write that leaves the deltas alone. -/
theorem keepsOthers_of_same {nonce : Nonce} {f f' : Files} (h : KeepsOthers files nonce f)
    (hsame : f'.deltas = f.deltas) : KeepsOthers files nonce f' :=
  fun d hd hother => hsame ▸ h d hd hother

theorem releasePendingFlag_deltas (f : Files) : f.releasePendingFlag.deltas = f.deltas := by
  rw [releasePendingFlag]
  split <;> rfl

/-- The candidate an operation removed from an attempt, on its side of the
boundary. -/
def RemovedFrom (log : Admissions) (files : Files) (res : ExecutionResolution) (crossed : Bool)
    (d : DeltaObject) : Prop :=
  ∃ r ∈ files.executions, r.isAttempt res.proposalId res.attempt = true ∧ r.isActive = true ∧
    r.evidence.isSome = crossed ∧ d ∈ files.candidates ∧ WrittenBy log r d ∧
    Named files.admission r d

theorem Reserved.removedFrom (h : Reserved log files) {res : ExecutionResolution}
    {record : ExecutionRecord} (hok : files.resolvable res = .ok record) {nonce : Nonce} {f : Files}
    (hkeeps : KeepsOthers files nonce f) {d : DeltaObject} (hd : d ∈ files.deltas)
    (hgone : d ∉ f.deltas) : RemovedFrom log files res record.evidence.isSome d := by
  obtain ⟨hmem, hkey, houtcome⟩ := resolvable_ok hok
  have hactive := (h.outcome hmem).mpr houtcome
  have hcandidate : d.status.isCandidate = true := by
    rw [← Bool.not_eq_false]
    exact fun hended => hgone (hkeeps d hd (.inr hended))
  have hqueued := mem_candidates.mpr ⟨hd, hcandidate⟩
  exact ⟨record, hmem, hkey, hactive, rfl, hqueued, h.written hmem hactive hqueued,
    h.named hmem hactive hqueued⟩

/-- Wherever a resolution stops, it has removed nothing but the attempt's own
candidate. -/
theorem Reserved.removed_resolve (h : Reserved log files) (res : ExecutionResolution) (n : Nat)
    {d : DeltaObject} (hd : d ∈ files.deltas)
    (hgone : d ∉ (after ((files.resolveExecution res).writes.take n) files).deltas) :
    RemovedFrom log files res true d := by
  rw [resolveExecution] at hgone
  split at hgone
  · rw [Plan.reply, List.take_nil] at hgone
    exact absurd hd hgone
  · rename_i record hok
    split at hgone
    · rw [Plan.reply, List.take_nil] at hgone
      exact absurd hd hgone
    · rename_i evidence hevidence
      have hkeeps : Throughout (KeepsOthers files evidence.candidateNonce)
          (files.removeCandidate evidence.candidateNonce ++
            (if res.failure.endsProposal then [deleteDeltaProposal res.proposalId] else []) ++
            [releasePendingFlag, settleExecution record (.failed res.failure) res.now]) files := by
        refine throughout_of_kept (fun write hwrite f hf => ?_) fun _ hd _ => hd
        simp only [List.mem_append, List.mem_cons, List.not_mem_nil, or_false] at hwrite
        obtain (hwrite | hwrite) | rfl | rfl := hwrite
        · exact keepsOthers_removeCandidate write hwrite f hf
        · split at hwrite
          · rw [List.mem_singleton.mp hwrite]
            exact keepsOthers_of_same hf rfl
          · cases hwrite
        · exact keepsOthers_of_same hf (releasePendingFlag_deltas f)
        · exact keepsOthers_of_same hf rfl
      have hremoved := h.removedFrom hok (hkeeps.stopped n) hd hgone
      rwa [hevidence] at hremoved

/-- The writes that take back what an interrupted admission of the attempt left. -/
def Files.interruptedRemovals (files : Files) (record : ExecutionRecord) :
    List (Files → Files) :=
  match files.admission.filter (·.belongsTo record.reservation) with
  | some interrupted => files.removeCandidate interrupted.nonce
  | none => []

theorem Reserved.removed_fail (h : Reserved log files) (res : ExecutionResolution) (n : Nat)
    {d : DeltaObject} (hd : d ∈ files.deltas)
    (hgone : d ∉ (after ((files.failExecution res).writes.take n) files).deltas) :
    RemovedFrom log files res false d := by
  rw [failExecution] at hgone
  split at hgone
  · rw [Plan.reply, List.take_nil] at hgone
    exact absurd hd hgone
  · rename_i record hok
    split at hgone
    · rw [Plan.reply, List.take_nil] at hgone
      exact absurd hd hgone
    · rename_i hevidence
      have hkeeps : ∃ nonce, Throughout (KeepsOthers files nonce)
          (files.interruptedRemovals record ++
            [settleExecution record (.failed res.failure) res.now]) files := by
        unfold Files.interruptedRemovals
        split
        · rename_i interrupted _
          refine ⟨interrupted.nonce, throughout_of_kept (fun write hwrite f hf => ?_) fun _ hd _ => hd⟩
          obtain hwrite | hwrite := List.mem_append.mp hwrite
          · exact keepsOthers_removeCandidate write hwrite f hf
          · rw [List.mem_singleton.mp hwrite]
            exact keepsOthers_of_same hf rfl
        · refine ⟨0, throughout_of_kept (fun write hwrite f hf => ?_) fun _ hd _ => hd⟩
          rw [List.mem_singleton.mp hwrite]
          exact keepsOthers_of_same hf rfl
      obtain ⟨nonce, hkeeps⟩ := hkeeps
      have hremoved := h.removedFrom hok (hkeeps.stopped n) hd hgone
      rwa [Bool.eq_false_iff.mpr hevidence] at hremoved

end Removals

/-! ## What ends an attempt -/

section Endings
variable {log : Admissions} {files : Files} {r : ExecutionRecord}

/-- No attempt is active any more, this one has its outcome, and nothing is
queued. -/
structure Ended (r : ExecutionRecord) (terminal : ExecutionTerminal) (files : Files) : Prop where
  free : files.activeExecution = none
  outcome : ∃ ended ∈ files.executions,
    ended.isAttempt r.reservation.proposalId r.reservation.attempt = true ∧
      ended.outcome = some terminal
  empty : files.candidates = []

theorem settled_free (hr : r ∈ files.executions)
    (hsingle : ∀ {r'}, r' ∈ files.executions → r'.isActive = true → r' = r)
    (terminal : ExecutionTerminal) (now : Time) :
    (settleExecution r terminal now files).activeExecution = none ∧
      r.settleAs terminal now ∈ (settleExecution r terminal now files).executions := by
  constructor
  · refine List.find?_eq_none.mpr fun ended hended => ?_
    obtain ⟨r', hr', rfl⟩ := List.mem_map.mp hended
    split
    · simp [ExecutionRecord.isActive, ExecutionRecord.settleAs, ExecutionReservation.isActive]
    · rename_i hother
      intro hactive
      rw [hsingle hr' hactive] at hother
      exact hother (isAttempt_self r)
  · refine List.mem_map.mpr ⟨r, hr, ?_⟩
    rw [if_pos (isAttempt_self r)]

theorem settled_ended (hr : r ∈ files.executions)
    (hsingle : ∀ {r'}, r' ∈ files.executions → r'.isActive = true → r' = r)
    (hempty : files.candidates = []) (terminal : ExecutionTerminal) (now : Time) :
    Ended r terminal (settleExecution r terminal now files) := by
  obtain ⟨hfree, hmem⟩ := settled_free hr hsingle terminal now
  exact ⟨hfree, ⟨_, hmem, isAttempt_self r, rfl⟩, hempty⟩

/-- A removal that finds every candidate at its nonce empties the queue. -/
theorem removeCandidate_empty {nonce : Nonce} (hall : ∀ d ∈ files.candidates, d.nonce = nonce) :
    (after (files.removeCandidate nonce) files).candidates = [] ∧
      (after (files.removeCandidate nonce) files).executions = files.executions := by
  rw [removeCandidate]
  split
  · refine ⟨List.eq_nil_iff_forall_not_mem.mpr fun d hd => ?_, rfl⟩
    obtain ⟨hmem, hcandidate⟩ := mem_candidates.mp hd
    obtain ⟨hold, hne⟩ := mem_deleteDelta.mp hmem
    exact hne (hall d (mem_candidates.mpr ⟨hold, hcandidate⟩))
  · rename_i hnone
    refine ⟨List.eq_nil_iff_forall_not_mem.mpr fun d hd => hnone ?_, rfl⟩
    have hmem : d ∈ files.candidates := hd
    obtain ⟨hold, hcandidate⟩ := mem_candidates.mp hmem
    have hpull : files.pullDelta nonce = some d :=
      Table.find?_eq_some.mpr ⟨hold, congrArg BitVec.toNat (hall d hmem)⟩
    rw [hpull, Option.any_some]
    exact hcandidate

theorem releasePendingFlag_executions (f : Files) :
    f.releasePendingFlag.executions = f.executions := by
  rw [releasePendingFlag]
  split <;> rfl

theorem candidates_congr {f f' : Files} (h : f'.deltas = f.deltas) :
    f'.candidates = f.candidates := congrArg (Table.select · _) h

/-- The operation on the attempt's side of its boundary. -/
def endAttempt (files : Files) (r : ExecutionRecord) (res : ExecutionResolution) :
    Plan ResolveWrite :=
  if r.evidence.isSome then files.resolveExecution res else files.failExecution res

theorem Reserved.fail_ended (h : Reserved log files) (hr : r ∈ files.executions)
    (hactive : r.isActive = true) (hevidence : r.evidence = none) {res : ExecutionResolution}
    (hok : files.resolvable res = .ok r) :
    (files.failExecution res).answer = .resolved ∧
      Ended r (.failed res.failure) (after (files.failExecution res).writes files) := by
  have hsingle : ∀ {r'}, r' ∈ files.executions → r'.isActive = true → r' = r :=
    fun hr' hactive' => h.single hr' hr hactive' hactive
  have hplan : files.failExecution res =
      ⟨files.interruptedRemovals r ++ [settleExecution r (.failed res.failure) res.now],
        .resolved⟩ := by
    rw [failExecution, hok]
    show (if r.evidence.isSome = true then _ else _) = _
    exact if_neg (by rw [hevidence]; simp)
  rw [hplan]
  refine ⟨rfl, ?_⟩
  rw [after_append, Files.interruptedRemovals]
  cases hmarker : files.admission.filter (·.belongsTo r.reservation) with
  | none =>
    -- without a marker of this attempt, nothing is queued
    have hempty : files.candidates = [] := by
      refine List.eq_nil_iff_forall_not_mem.mpr fun d hd => ?_
      have hnamed := h.named hr hactive hd
      rw [Named, hevidence] at hnamed
      obtain ⟨marker, hadmission, hbelongs, -⟩ := hnamed
      rw [hadmission, Option.filter_some, if_pos hbelongs] at hmarker
      cases hmarker
    exact settled_ended hr hsingle hempty _ _
  | some interrupted =>
    have hall : ∀ d ∈ files.candidates, d.nonce = interrupted.nonce := by
      intro d hd
      have hnamed := h.named hr hactive hd
      rw [Named, hevidence] at hnamed
      obtain ⟨marker, hadmission, hbelongs, hnonce⟩ := hnamed
      rw [hadmission, Option.filter_some, if_pos hbelongs] at hmarker
      rw [← hnonce, Option.some.inj hmarker]
    obtain ⟨hempty, hsame⟩ := removeCandidate_empty hall
    refine settled_ended (hsame ▸ hr) (fun hr' => hsingle (hsame ▸ hr')) hempty _ _

theorem Reserved.resolve_ended (h : Reserved log files) (hr : r ∈ files.executions)
    (hactive : r.isActive = true) {evidence : SubmissionEvidence}
    (hevidence : r.evidence = some evidence) {res : ExecutionResolution}
    (hok : files.resolvable res = .ok r) :
    (files.resolveExecution res).answer = .resolved ∧
      Ended r (.failed res.failure) (after (files.resolveExecution res).writes files) := by
  have hsingle : ∀ {r'}, r' ∈ files.executions → r'.isActive = true → r' = r :=
    fun hr' hactive' => h.single hr' hr hactive' hactive
  have hall : ∀ d ∈ files.candidates, d.nonce = evidence.candidateNonce := by
    intro d hd
    have hnamed := h.named hr hactive hd
    rw [Named, hevidence] at hnamed
    have hdescribes : evidence.describes d = true := hnamed
    rw [SubmissionEvidence.describes, Bool.and_eq_true, beq_iff_eq] at hdescribes
    exact hdescribes.1.symm
  obtain ⟨hempty, hsame⟩ := removeCandidate_empty hall
  have hplan : files.resolveExecution res =
      ⟨files.removeCandidate evidence.candidateNonce ++
        (if res.failure.endsProposal then [deleteDeltaProposal res.proposalId] else []) ++
        [releasePendingFlag, settleExecution r (.failed res.failure) res.now], .resolved⟩ := by
    rw [resolveExecution, hok]
    simp only [hevidence]
  rw [hplan]
  refine ⟨rfl, ?_⟩
  rw [after_append, after_append, after_cons]
  -- the proposal and the flag leave the records and the queue alone
  have hproposal : ∀ f, (after (if res.failure.endsProposal then
      [deleteDeltaProposal res.proposalId] else []) f).executions = f.executions ∧
      (after (if res.failure.endsProposal then [deleteDeltaProposal res.proposalId] else []) f).deltas =
        f.deltas := by
    intro f
    split
    · exact ⟨rfl, rfl⟩
    · exact ⟨rfl, rfl⟩
  obtain ⟨hexecutions, hdeltas⟩ :=
    hproposal (after (files.removeCandidate evidence.candidateNonce) files)
  have hrecords := ((releasePendingFlag_executions _).trans hexecutions).trans hsame
  have hqueue := (candidates_congr ((releasePendingFlag_deltas _).trans hdeltas)).trans hempty
  exact settled_ended (hrecords ▸ hr) (fun hr' => hsingle (hrecords ▸ hr')) hqueue _ _

theorem Reserved.attempt_ended (h : Reserved log files) (hr : r ∈ files.executions)
    (hactive : r.isActive = true) {res : ExecutionResolution}
    (hkey : r.isAttempt res.proposalId res.attempt = true)
    (hlive : r.reservation.ownsLive res.fence res.now = true) :
    (endAttempt files r res).answer = .resolved ∧
      Ended r (.failed res.failure) (after (endAttempt files r res).writes files) := by
  have hok := h.resolvable hr hactive hkey hlive
  rw [endAttempt]
  cases hevidence : r.evidence with
  | none => exact h.fail_ended hr hactive hevidence hok
  | some evidence => exact h.resolve_ended hr hactive hevidence hok

/-- A promoted attempt settles. -/
theorem Reserved.settle_ended (h : Reserved log files) (hr : r ∈ files.executions)
    (hactive : r.isActive = true) {evidence : SubmissionEvidence}
    (hevidence : r.evidence = some evidence) {fence : LeaseFence} {now : Time}
    (hlive : r.reservation.ownsLive fence now = true) {state : StateObject}
    (hstate : files.state = some state)
    (hcommitment : eqIgnoreAsciiCase state.commitment evidence.expectedCommitment = true)
    (hcanonical : (files.pullDelta evidence.candidateNonce).any (·.status.isCanonical) = true) :
    ∃ plan, files.settlePromotedExecution fence now = some plan ∧ plan.answer = .settled ∧
      Ended r .committed (after plan.writes files) := by
  have hsingle : ∀ {r'}, r' ∈ files.executions → r'.isActive = true → r' = r :=
    fun hr' hactive' => h.single hr' hr hactive' hactive
  -- the queue had nothing but the row that is canonical now
  have hempty : files.candidates = [] := by
    refine List.eq_nil_iff_forall_not_mem.mpr fun d hd => ?_
    have hnamed := h.named hr hactive hd
    rw [Named, hevidence] at hnamed
    have hdescribes : evidence.describes d = true := hnamed
    rw [SubmissionEvidence.describes, Bool.and_eq_true, beq_iff_eq] at hdescribes
    obtain ⟨hmem, hcandidate⟩ := mem_candidates.mp hd
    have hpull : files.pullDelta evidence.candidateNonce = some d :=
      Table.find?_eq_some.mpr ⟨hmem, congrArg BitVec.toNat hdescribes.1.symm⟩
    rw [hpull, Option.any_some] at hcanonical
    rw [isCandidate_of_isCanonical hcanonical] at hcandidate
    cases hcandidate
  refine ⟨⟨[settleExecution r .committed now], .settled⟩, ?_, rfl, ?_⟩
  · rw [settlePromotedExecution, h.activeExecution hr hactive]
    show (if r.reservation.ownsLive fence now = false then _ else _) = _
    rw [hlive, if_neg (by simp), hevidence, hstate]
    show (if _ ∧ _ then _ else _) = _
    rw [if_pos ⟨hcanonical, hcommitment⟩]
  · exact settled_ended hr hsingle hempty _ _

/-- A claim under a higher token moves the reservation to a live lease. -/
theorem Reserved.claimed (h : Reserved log files) (hr : r ∈ files.executions)
    (hactive : r.isActive = true) {claimant : LeaseFence} {leaseExpiresAt now : Time}
    (htoken : r.reservation.fence.fenceToken < claimant.fenceToken) (hexpires : now < leaseExpiresAt) :
    ∃ plan, files.claimExecutionReservation true r.reservation.fence claimant leaseExpiresAt now =
        some plan ∧ plan.answer = .claimed ∧
      ∃ claimed ∈ (after plan.writes files).executions, claimed.isActive = true ∧
        claimed.isAttempt r.reservation.proposalId r.reservation.attempt = true ∧
        claimed.evidence = r.evidence ∧
        ∀ later < leaseExpiresAt, claimed.reservation.ownsLive claimant later = true := by
  have hplan : files.claimExecutionReservation true r.reservation.fence claimant leaseExpiresAt now =
      some ⟨[updateExecution r.reservation.proposalId r.reservation.attempt (fun r =>
        { r with reservation :=
          { r.reservation with fence := claimant, leaseExpiresAt := leaseExpiresAt } })],
        .claimed⟩ := by
    rw [claimExecutionReservation, if_neg (by simp), h.activeExecution hr hactive]
    show (if r.reservation.fence ≠ r.reservation.fence then _ else _) = _
    rw [if_neg (by simp), if_neg]
    rintro (hle | hle)
    · exact absurd htoken (Nat.not_lt.mpr hle)
    · exact absurd hexpires (not_lt.mpr hle)
  refine ⟨_, hplan, rfl, { r with reservation :=
    { r.reservation with fence := claimant, leaseExpiresAt := leaseExpiresAt } }, ?_, hactive,
    isAttempt_self r, rfl, fun later hlater => ?_⟩
  · refine List.mem_map.mpr ⟨r, hr, ?_⟩
    rw [if_pos (isAttempt_self r)]
  · rw [ExecutionReservation.ownsLive, beq_self_eq_true, decide_eq_true hlater]
    rfl

end Endings

/-! ## Every stop -/

/-- In whatever files stopped operations left: a failure or a resolution, wherever it
stops, removes nothing but the candidate its attempt's admission wrote; and an active
attempt has no other candidate beside it, is ended by the operation on its side of the
boundary, or settled once promoted, and can be claimed when its lease is gone. -/
theorem stopped_execution_can_be_ended {start files : Files} {log : Admissions}
    (hstart : start.executions = []) (h : FilesReached start files log) :
    (∀ res n d, d ∈ files.deltas →
      (d ∉ (after ((files.resolveExecution res).writes.take n) files).deltas →
        RemovedFrom log files res true d) ∧
      (d ∉ (after ((files.failExecution res).writes.take n) files).deltas →
        RemovedFrom log files res false d)) ∧
    ∀ r ∈ files.executions, r.isActive = true →
      (∀ d ∈ files.candidates, WrittenBy log r d ∧ Named files.admission r d) ∧
      (∀ res, r.isAttempt res.proposalId res.attempt = true →
        r.reservation.ownsLive res.fence res.now = true →
        (endAttempt files r res).answer = .resolved ∧
          Ended r (.failed res.failure) (after (endAttempt files r res).writes files)) ∧
      (∀ evidence fence now state, r.evidence = some evidence →
        r.reservation.ownsLive fence now = true → files.state = some state →
        eqIgnoreAsciiCase state.commitment evidence.expectedCommitment = true →
        (files.pullDelta evidence.candidateNonce).any (·.status.isCanonical) = true →
        ∃ plan, files.settlePromotedExecution fence now = some plan ∧ plan.answer = .settled ∧
          Ended r .committed (after plan.writes files)) ∧
      (∀ claimant leaseExpiresAt now, r.reservation.fence.fenceToken < claimant.fenceToken →
        now < leaseExpiresAt →
        ∃ plan, files.claimExecutionReservation true r.reservation.fence claimant leaseExpiresAt
            now = some plan ∧ plan.answer = .claimed ∧
          ∃ claimed ∈ (after plan.writes files).executions, claimed.isActive = true ∧
            claimed.isAttempt r.reservation.proposalId r.reservation.attempt = true ∧
            claimed.evidence = r.evidence ∧
            ∀ later < leaseExpiresAt, claimed.reservation.ownsLive claimant later = true) := by
  have hreserved := h.reserved hstart
  refine ⟨fun res n d hd => ⟨hreserved.removed_resolve res n hd, hreserved.removed_fail res n hd⟩, ?_⟩
  intro r hr hactive
  refine ⟨fun d hd => ⟨hreserved.written hr hactive hd, hreserved.named hr hactive hd⟩, ?_, ?_, ?_⟩
  · exact fun res hkey hlive => hreserved.attempt_ended hr hactive hkey hlive
  · exact fun evidence fence now state hevidence hlive hstate hcommitment hcanonical =>
      hreserved.settle_ended hr hactive hevidence hlive hstate hcommitment hcanonical
  · exact fun claimant leaseExpiresAt now htoken hexpires =>
      hreserved.claimed hr hactive htoken hexpires

namespace StoppedAdmission

def fence : LeaseFence := ⟨"execution-0xabc", "replica-1", 1⟩

def delta : DeltaObject := ⟨5, "0xbase", some "0xpost", "payload", .newCandidate 10⟩

def start : Files where
  deltas := .empty
  superseded := []
  state := some ⟨"state", "0xbase", some 4⟩
  metadata := some ⟨.midenFalconRpo [], false, none, none⟩
  executions := []
  admission := none
  proposals := ["0xproposal"]

def admission : CandidateAdmission where
  fence := fence
  proposalId := "0xproposal"
  attempt := 1
  delta := delta
  evidence := ⟨5, "0xtx", "0xpost", 7, 20, "0xbase"⟩
  now := 10
  archiveParked := true

def failure : ExecutionResolution := ⟨"0xproposal", 1, fence, .leaseExpired, 12⟩

def created : Files :=
  after (((FileCall.createExecutionReservation true "0xproposal" fence 100 5).writes start).take 1)
    start

/-- The admission stops after its marker and its candidate. -/
def stopped : Files :=
  after (((FileCall.admitExecutionCandidate admission).writes created).take 2) created

theorem reached : FilesReached start stopped
    (FileCall.note created (FileCall.note start []
      (.createExecutionReservation true "0xproposal" fence 100 5))
      (.admitExecutionCandidate admission)) :=
  .call (.admitExecutionCandidate admission) 2 trivial
    (.call (.createExecutionReservation true "0xproposal" fence 100 5) 1 trivial .init)

/-- The attempt the stop leaves. -/
def attempt : ExecutionRecord := ⟨⟨"0xproposal", 1, fence, 100, .accepted, none⟩, none, none⟩

theorem stopped_executions : stopped.executions = [attempt] := by decide +kernel

theorem stopped_candidates : stopped.candidates = [delta] := by decide +kernel

end StoppedAdmission

/-- A stopped admission leaves a candidate without evidence. -/
theorem stopped_admission_leaves_candidate :
    ∃ files log r, FilesReached StoppedAdmission.start files log ∧ r ∈ files.executions ∧
      r.isActive = true ∧ r.evidence = none ∧ files.candidates ≠ [] := by
  refine ⟨_, _, StoppedAdmission.attempt, StoppedAdmission.reached, ?_, rfl, rfl, ?_⟩
  · rw [StoppedAdmission.stopped_executions]
    exact List.mem_singleton_self _
  · rw [StoppedAdmission.stopped_candidates]
    exact List.cons_ne_nil _ _

/-- Its failure ends it. -/
theorem stopped_execution_can_be_ended_failed :
    StoppedAdmission.start.executions = [] ∧
      StoppedAdmission.stopped.candidates = [StoppedAdmission.delta] ∧
      Ended StoppedAdmission.attempt (.failed .leaseExpired)
        (after (StoppedAdmission.stopped.failExecution StoppedAdmission.failure).writes
          StoppedAdmission.stopped) := by
  refine ⟨rfl, StoppedAdmission.stopped_candidates, ?_⟩
  have hr : StoppedAdmission.attempt ∈ StoppedAdmission.stopped.executions := by
    rw [StoppedAdmission.stopped_executions]
    exact List.mem_singleton_self _
  have hall := (stopped_execution_can_be_ended rfl StoppedAdmission.reached).2 _ hr rfl
  exact (hall.2.1 StoppedAdmission.failure (by decide) (by decide)).2

end Guardian
