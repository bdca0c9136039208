import Guardian.Rows
import Guardian.Storage.FileExecution

/- Filesystem executions that stop.

   Every operation may stop after any of its writes, and the next one reads what it
   left. What they all keep (`Reserved`): an account has one active attempt at most,
   and while it has one, every queued candidate is one this attempt's admission
   wrote. The evidence describes it, or there is no evidence yet and the admission
   marker names it. So an attempt without evidence is ended by `fail_execution`, one
   with evidence by `resolve_execution` or, once promoted, by
   `settle_promoted_execution`, and either removes that candidate and no other. -/
namespace Guardian

open Stops

/-- A call of a storage operation. -/
inductive FileCall where
  | submitCandidate (delta : DeltaObject) (now : Time) (policy : CandidatePolicy)
  | requestCandidateAbandon (nonce : Nonce) (newCommitment : Commitment) (now : Time)
  | promoteCandidate (p : CandidatePromotion)
  | replaceState (state : StateObject) (expected : Commitment)
  | discardCandidate (nonce : Nonce) (kind : DeltaStatusKind)
  | updateCandidateStatus (nonce : Nonce) (status : DeltaStatus)
  | createExecutionReservation (leaseFits : Bool) (proposalId : String) (fence : LeaseFence)
      (leaseExpiresAt now : Time)
  | renewExecutionReservation (fence : LeaseFence) (leaseExpiresAt : Time) (phase : ExecutionPhase)
      (now : Time)
  | claimExecutionReservation (leaseFits : Bool) (expected claimant : LeaseFence)
      (leaseExpiresAt now : Time)
  | admitExecutionCandidate (a : CandidateAdmission)
  | resolveExecution (r : ExecutionResolution)
  | failExecution (r : ExecutionResolution)
  | settlePromotedExecution (fence : LeaseFence) (now : Time)
  | pruneAccountExecutions (cutoff : Time) (limit : Nat)

/-- The writes of an operation that may fail before the first. -/
def Plan.writesOf {α : Type} (plan : Option (Plan α)) : List (Files → Files) :=
  match plan with
  | none => []
  | some plan => plan.writes

namespace FileCall

/-- The writes of the call, in order. -/
def writes (files : Files) : FileCall → List (Files → Files)
  | .submitCandidate delta now policy => Plan.writesOf (files.submitCandidate delta now policy)
  | .requestCandidateAbandon nonce new now => (files.requestCandidateAbandon nonce new now).writes
  | .promoteCandidate p => Plan.writesOf (files.promoteCandidate p)
  | .replaceState state expected => Plan.writesOf (files.replaceState state expected)
  | .discardCandidate nonce kind => (files.discardCandidate nonce kind).writes
  | .updateCandidateStatus nonce status => (files.updateCandidateStatus nonce status).writes
  | .createExecutionReservation leaseFits proposalId fence leaseExpiresAt now =>
    Plan.writesOf (files.createExecutionReservation leaseFits proposalId fence leaseExpiresAt now)
  | .renewExecutionReservation fence leaseExpiresAt phase now =>
    (files.renewExecutionReservation fence leaseExpiresAt phase now).writes
  | .claimExecutionReservation leaseFits expected claimant leaseExpiresAt now =>
    Plan.writesOf (files.claimExecutionReservation leaseFits expected claimant leaseExpiresAt now)
  | .admitExecutionCandidate a => Plan.writesOf (files.admitExecutionCandidate a)
  | .resolveExecution r => (files.resolveExecution r).writes
  | .failExecution r => (files.failExecution r).writes
  | .settlePromotedExecution fence now => Plan.writesOf (files.settlePromotedExecution fence now)
  | .pruneAccountExecutions cutoff limit => (files.pruneAccountExecutions cutoff limit).writes

/-- A promotion writes a canonical row, as its callers build it. -/
def fits : FileCall → Prop
  | .promoteCandidate p => p.delta.status.isCanonical = true
  | _ => True

end FileCall

/-- An admission that passed its checks. -/
structure AdmittedCandidate where
  proposalId : String
  attempt : Nat
  delta : DeltaObject

/-- What admissions were about to write, and for which attempt. -/
abbrev Admissions := List AdmittedCandidate

def FileCall.note (files : Files) (log : Admissions) : FileCall → Admissions
  | .admitExecutionCandidate a =>
    match files.admitExecutionCandidate a with
    | some ⟨_, .admitted⟩ => ⟨a.proposalId, a.attempt, a.delta⟩ :: log
    | _ => log
  | _ => log

/-- The files some run leaves: operations that each stop after any number of their
writes, among changes to every other file of the account. -/
inductive FilesReached (start : Files) : Files → Admissions → Prop where
  | init : FilesReached start start []
  | call {files : Files} {log : Admissions} (c : FileCall) (n : Nat) (hfits : c.fits) :
      FilesReached start files log →
      FilesReached start (after ((c.writes files).take n) files) (c.note files log)
  | other {files : Files} {log : Admissions} (change : Files → Files) :
      FilesReached start files log →
      FilesReached start { change files with
        deltas := files.deltas, executions := files.executions, admission := files.admission } log

/-! ## The invariant -/

/-- A candidate this attempt's admission wrote. -/
def WrittenBy (log : Admissions) (r : ExecutionRecord) (d : DeltaObject) : Prop :=
  ∃ written ∈ log, r.isAttempt written.proposalId written.attempt = true ∧ SameDelta d written.delta

/-- The evidence describes the candidate; without evidence, the marker of this
attempt names it. -/
def Named (admission : Option InterruptedAdmission) (r : ExecutionRecord) (d : DeltaObject) : Prop :=
  match r.evidence with
  | some evidence => evidence.describes d = true
  | none => ∃ marker, admission = some marker ∧ marker.belongsTo r.reservation = true ∧
      marker.nonce = d.nonce

structure Reserved (log : Admissions) (files : Files) : Prop where
  attempts : files.executions.Pairwise
    (fun r r' => r'.isAttempt r.reservation.proposalId r.reservation.attempt = false)
  outcome : ∀ {r}, r ∈ files.executions → (r.isActive = true ↔ r.outcome = none)
  single : ∀ {r r'}, r ∈ files.executions → r' ∈ files.executions → r.isActive = true →
    r'.isActive = true → r = r'
  written : ∀ {r d}, r ∈ files.executions → r.isActive = true → d ∈ files.candidates →
    WrittenBy log r d
  named : ∀ {r d}, r ∈ files.executions → r.isActive = true → d ∈ files.candidates →
    Named files.admission r d

namespace Reserved
variable {log : Admissions} {files files' : Files}

/-- Only these files matter, and fewer candidates are as good. -/
theorem fewer (h : Reserved log files) (hqueue : files'.candidates ⊆ files.candidates)
    (hexecutions : files'.executions = files.executions)
    (hadmission : files'.admission = files.admission) : Reserved log files' where
  attempts := hexecutions ▸ h.attempts
  outcome := fun hr => h.outcome (hexecutions ▸ hr)
  single := fun hr hr' => h.single (hexecutions ▸ hr) (hexecutions ▸ hr')
  written := fun hr hactive hd => h.written (hexecutions ▸ hr) hactive (hqueue hd)
  named := fun hr hactive hd => hadmission ▸ h.named (hexecutions ▸ hr) hactive (hqueue hd)

theorem log_mono (h : Reserved log files) {log' : Admissions} (hlog : log ⊆ log') :
    Reserved log' files where
  attempts := h.attempts
  outcome := h.outcome
  single := h.single
  written := fun hr hactive hd => by
    obtain ⟨written, hmem, hrest⟩ := h.written hr hactive hd
    exact ⟨written, hlog hmem, hrest⟩
  named := h.named

end Reserved

/-! ## What one write keeps -/

namespace Files

theorem mem_candidates {files : Files} {d : DeltaObject} :
    d ∈ files.candidates ↔ d ∈ files.deltas ∧ d.status.isCandidate = true := Table.mem_select

theorem mem_deleteDelta {files : Files} {nonce : Nonce} {d : DeltaObject} :
    d ∈ (files.deleteDelta nonce).deltas ↔ d ∈ files.deltas ∧ d.nonce ≠ nonce := by
  rw [deleteDelta, Table.mem_delete, beq_eq_false_iff_ne]

theorem mem_writeDelta {files : Files} {delta d : DeltaObject} :
    d ∈ (files.writeDelta delta).deltas ↔ d = delta ∨ d ∈ files.deltas ∧ d.nonce ≠ delta.nonce := by
  rw [writeDelta, Table.mem_insert (find?_deleteDelta files delta.nonce), Table.mem_delete,
    beq_eq_false_iff_ne]

end Files

open Files

section Writes
variable {log : Admissions} {files : Files}

theorem kept_deleteDelta (nonce : Nonce) (h : Reserved log files) :
    Reserved log (files.deleteDelta nonce) := by
  refine h.fewer (fun d hd => ?_) rfl rfl
  obtain ⟨hmem, hcandidate⟩ := mem_candidates.mp hd
  exact mem_candidates.mpr ⟨(mem_deleteDelta.mp hmem).1, hcandidate⟩

theorem kept_archiveDelta (delta : DeltaObject) (now : Time) (h : Reserved log files) :
    Reserved log (files.archiveDelta delta now) := h.fewer (List.Subset.refl _) rfl rfl

theorem kept_removeArchived (archived : SupersededDelta) (h : Reserved log files) :
    Reserved log (files.removeArchived archived) := h.fewer (List.Subset.refl _) rfl rfl

theorem kept_writeState (state : StateObject) (h : Reserved log files) :
    Reserved log (files.writeState state) := h.fewer (List.Subset.refl _) rfl rfl

theorem kept_setMetadata (f : AccountMetadata → AccountMetadata) (h : Reserved log files) :
    Reserved log (files.setMetadata f) := h.fewer (List.Subset.refl _) rfl rfl

theorem kept_deleteDeltaProposal (proposalId : String) (h : Reserved log files) :
    Reserved log (files.deleteDeltaProposal proposalId) := h.fewer (List.Subset.refl _) rfl rfl

theorem kept_releasePendingFlag (h : Reserved log files) : Reserved log files.releasePendingFlag := by
  rw [releasePendingFlag]
  split
  · exact kept_setMetadata _ h
  · exact h

/-- A row that is no candidate queues nothing. -/
theorem kept_writeDelta_ended {delta : DeltaObject} (hended : delta.status.isCandidate = false)
    (h : Reserved log files) : Reserved log (files.writeDelta delta) := by
  refine h.fewer (fun d hd => ?_) rfl rfl
  obtain ⟨hmem, hcandidate⟩ := mem_candidates.mp hd
  obtain rfl | ⟨hold, -⟩ := mem_writeDelta.mp hmem
  · rw [hended] at hcandidate
    cases hcandidate
  · exact mem_candidates.mpr ⟨hold, hcandidate⟩

theorem WrittenBy.same {r : ExecutionRecord} {d d' : DeltaObject} (h : WrittenBy log r d)
    (hsame : SameDelta d' d) : WrittenBy log r d' := by
  obtain ⟨written, hmem, hattempt, hdelta⟩ := h
  exact ⟨written, hmem, hattempt, hsame.trans hdelta⟩

theorem describes_same {evidence : SubmissionEvidence} {d d' : DeltaObject}
    (h : evidence.describes d = true) (hsame : SameDelta d' d) : evidence.describes d' = true := by
  rw [SubmissionEvidence.describes, hsame.nonce, hsame.prevCommitment]
  exact h

theorem Named.same {admission : Option InterruptedAdmission} {r : ExecutionRecord}
    {d d' : DeltaObject} (h : Named admission r d) (hsame : SameDelta d' d) :
    Named admission r d' := by
  rw [Named] at h ⊢
  split at h
  · exact describes_same h hsame
  · obtain ⟨marker, hmarker, hbelongs, hnonce⟩ := h
    exact ⟨marker, hmarker, hbelongs, hnonce.trans hsame.nonce.symm⟩

/-- A candidate's status is written over. -/
theorem kept_writeDelta_same {delta existing : DeltaObject} (hqueued : existing ∈ files.candidates)
    (hsame : SameDelta delta existing) (h : Reserved log files) :
    Reserved log (files.writeDelta delta) where
  attempts := h.attempts
  outcome := h.outcome
  single := h.single
  written := fun {r d} hr hactive hd => by
    obtain ⟨hmem, hcandidate⟩ := mem_candidates.mp hd
    obtain rfl | ⟨hold, -⟩ := mem_writeDelta.mp hmem
    · exact (h.written hr hactive hqueued).same hsame
    · exact h.written hr hactive (mem_candidates.mpr ⟨hold, hcandidate⟩)
  named := fun {r d} hr hactive hd => by
    obtain ⟨hmem, hcandidate⟩ := mem_candidates.mp hd
    obtain rfl | ⟨hold, -⟩ := mem_writeDelta.mp hmem
    · exact (h.named hr hactive hqueued).same hsame
    · exact h.named hr hactive (mem_candidates.mpr ⟨hold, hcandidate⟩)

/-- No attempt is active. -/
structure Free (log : Admissions) (files : Files) : Prop where
  reserved : Reserved log files
  free : ∀ {r}, r ∈ files.executions → r.isActive = false

/-- Without an active attempt, any queue will do. -/
theorem Free.deltas {files' : Files} (h : Free log files)
    (hexecutions : files'.executions = files.executions) : Free log files' where
  reserved :=
    { attempts := hexecutions ▸ h.reserved.attempts
      outcome := fun hr => h.reserved.outcome (hexecutions ▸ hr)
      single := fun hr hr' => h.reserved.single (hexecutions ▸ hr) (hexecutions ▸ hr')
      written := fun hr hactive => by
        rw [h.free (hexecutions ▸ hr)] at hactive
        cases hactive
      named := fun hr hactive => by
        rw [h.free (hexecutions ▸ hr)] at hactive
        cases hactive }
  free := fun hr => h.free (hexecutions ▸ hr)

/-! ## Writes to the records -/

/-- The same attempt, not made active again. -/
structure Rewrites (r r' : ExecutionRecord) : Prop where
  proposalId : r'.reservation.proposalId = r.reservation.proposalId
  attempt : r'.reservation.attempt = r.reservation.attempt
  active : r'.isActive = true → r.isActive = true
  outcome : (r.isActive = true ↔ r.outcome = none) → (r'.isActive = true ↔ r'.outcome = none)

theorem Rewrites.refl (r : ExecutionRecord) : Rewrites r r := ⟨rfl, rfl, id, id⟩

theorem Rewrites.isAttempt {r r' : ExecutionRecord} (h : Rewrites r r') (proposalId : String)
    (attempt : Nat) : r'.isAttempt proposalId attempt = r.isAttempt proposalId attempt := by
  rw [ExecutionRecord.isAttempt, h.proposalId, h.attempt]
  rfl

theorem Rewrites.belongsTo {r r' : ExecutionRecord} (h : Rewrites r r')
    (marker : InterruptedAdmission) :
    marker.belongsTo r'.reservation = marker.belongsTo r.reservation := by
  rw [InterruptedAdmission.belongsTo, h.proposalId, h.attempt]
  rfl

theorem Rewrites.named {admission : Option InterruptedAdmission} {r r' : ExecutionRecord}
    {d : DeltaObject} (h : Rewrites r r') (hevidence : r'.evidence = r.evidence)
    (hnamed : Named admission r d) : Named admission r' d := by
  rw [Named] at hnamed ⊢
  rw [hevidence]
  split at hnamed
  · exact hnamed
  · obtain ⟨marker, hmarker, hbelongs, hnonce⟩ := hnamed
    exact ⟨marker, hmarker, (h.belongsTo marker).trans hbelongs, hnonce⟩

theorem Rewrites.written {r r' : ExecutionRecord} {d : DeltaObject} (h : Rewrites r r')
    (hwritten : WrittenBy log r d) : WrittenBy log r' d := by
  obtain ⟨written, hmem, hattempt, hsame⟩ := hwritten
  exact ⟨written, hmem, (h.isAttempt _ _).trans hattempt, hsame⟩

theorem kept_rewrite {f : ExecutionRecord → ExecutionRecord} (hf : ∀ r, Rewrites r (f r))
    (hnamed : ∀ r ∈ files.executions, r.isActive = true → ∀ d ∈ files.candidates,
      Named files.admission (f r) d) (h : Reserved log files) :
    Reserved log { files with executions := files.executions.map f } where
  attempts := by
    refine List.pairwise_map.mpr (h.attempts.imp fun {r r'} hne => ?_)
    rw [(hf r').isAttempt, (hf r).proposalId, (hf r).attempt]
    exact hne
  outcome := fun hr => by
    obtain ⟨r, hmem, rfl⟩ := List.mem_map.mp hr
    exact (hf r).outcome (h.outcome hmem)
  single := fun hr hr' hactive hactive' => by
    obtain ⟨r, hmem, rfl⟩ := List.mem_map.mp hr
    obtain ⟨r', hmem', rfl⟩ := List.mem_map.mp hr'
    rw [h.single hmem hmem' ((hf r).active hactive) ((hf r').active hactive')]
  written := fun hr hactive hd => by
    obtain ⟨r, hmem, rfl⟩ := List.mem_map.mp hr
    exact (hf r).written (h.written hmem ((hf r).active hactive) hd)
  named := fun hr hactive hd => by
    obtain ⟨r, hmem, rfl⟩ := List.mem_map.mp hr
    exact hnamed r hmem ((hf r).active hactive) _ hd

/-- One attempt's record is rewritten. -/
def rewriteAttempt (proposalId : String) (attempt : Nat) (f : ExecutionRecord → ExecutionRecord)
    (r : ExecutionRecord) : ExecutionRecord :=
  if r.isAttempt proposalId attempt then f r else r

theorem rewriteAttempt_rewrites {f : ExecutionRecord → ExecutionRecord}
    (hf : ∀ r, Rewrites r (f r)) (proposalId : String) (attempt : Nat) (r : ExecutionRecord) :
    Rewrites r (rewriteAttempt proposalId attempt f r) := by
  rw [rewriteAttempt]
  split
  · exact hf r
  · exact Rewrites.refl r

theorem rewriteAttempt_evidence {f : ExecutionRecord → ExecutionRecord}
    (hf : ∀ r, (f r).evidence = r.evidence) (proposalId : String) (attempt : Nat)
    (r : ExecutionRecord) : (rewriteAttempt proposalId attempt f r).evidence = r.evidence := by
  rw [rewriteAttempt]
  split
  · exact hf r
  · rfl

/-- A rewrite that leaves the evidence. -/
theorem kept_updateExecution (proposalId : String) (attempt : Nat)
    {f : ExecutionRecord → ExecutionRecord} (hf : ∀ r, Rewrites r (f r))
    (hevidence : ∀ r, (f r).evidence = r.evidence) (h : Reserved log files) :
    Reserved log (files.updateExecution proposalId attempt f) := by
  have hrewrites := rewriteAttempt_rewrites hf proposalId attempt
  refine kept_rewrite hrewrites (fun r hr hactive d hd => ?_) h
  exact (hrewrites r).named (rewriteAttempt_evidence hevidence _ _ r) (h.named hr hactive hd)

theorem settleAs_rewrites (terminal : ExecutionTerminal) (now : Time) (r : ExecutionRecord) :
    Rewrites r (r.settleAs terminal now) := by
  refine ⟨rfl, rfl, ?_, fun _ => ⟨?_, ?_⟩⟩
  · rintro ⟨⟩
  · rintro ⟨⟩
  · rintro ⟨⟩

theorem kept_settleExecution (record : ExecutionRecord) (terminal : ExecutionTerminal) (now : Time)
    (h : Reserved log files) : Reserved log (settleExecution record terminal now files) :=
  kept_updateExecution _ _ (settleAs_rewrites terminal now) (fun _ => rfl) h

theorem kept_commitPromotedExecution (nonce : Nonce) (promoted : Commitment) (now : Time)
    (h : Reserved log files) : Reserved log (files.commitPromotedExecution nonce promoted now) := by
  rw [commitPromotedExecution]
  split
  · exact h
  · exact kept_settleExecution _ .committed now h

/-- A new attempt, over an empty queue. -/
theorem kept_writeExecution {record : ExecutionRecord} (hfree : Free log files)
    (hempty : files.candidates = []) (hactive : record.isActive = true)
    (houtcome : record.outcome = none)
    (hnew : ∀ r ∈ files.executions,
      record.isAttempt r.reservation.proposalId r.reservation.attempt = false) :
    Reserved log (files.writeExecution record) where
  attempts := by
    refine List.pairwise_append.mpr ⟨hfree.reserved.attempts, List.pairwise_singleton _ _, ?_⟩
    intro r hr r' hr'
    rw [List.mem_singleton.mp hr']
    exact hnew r hr
  outcome := fun hr => by
    obtain hr | hr := List.mem_append.mp hr
    · exact hfree.reserved.outcome hr
    · rw [List.mem_singleton.mp hr]
      exact ⟨fun _ => houtcome, fun _ => hactive⟩
  single := fun {r r'} hr hr' hactive hactive' => by
    have hlast : ∀ {r}, r ∈ files.executions ++ [record] → r.isActive = true → r = record := by
      intro r hr hactive
      obtain hr | hr := List.mem_append.mp hr
      · rw [hfree.free hr] at hactive
        cases hactive
      · exact List.mem_singleton.mp hr
    rw [hlast hr hactive, hlast hr' hactive']
  written := fun _ _ hd => by
    have hd' : _ ∈ files.candidates := hd
    rw [hempty] at hd'
    cases hd'
  named := fun _ _ hd => by
    have hd' : _ ∈ files.candidates := hd
    rw [hempty] at hd'
    cases hd'

theorem dropUpTo_sublist {α : Type} (p : α → Bool) (limit : Nat) (l : List α) :
    (dropUpTo p limit l).Sublist l := by
  induction l generalizing limit with
  | nil =>
    cases limit with
    | zero => exact List.Sublist.refl _
    | succ limit => exact List.Sublist.refl _
  | cons a l ih =>
    cases limit with
    | zero => exact List.Sublist.refl _
    | succ limit =>
      rw [dropUpTo]
      split
      · exact (ih limit).cons a
      · exact (ih (limit + 1)).cons_cons a

theorem kept_prune {kept : List ExecutionRecord} (hkept : kept.Sublist files.executions)
    (h : Reserved log files) : Reserved log { files with executions := kept } where
  attempts := h.attempts.sublist hkept
  outcome := fun hr => h.outcome (hkept.subset hr)
  single := fun hr hr' => h.single (hkept.subset hr) (hkept.subset hr')
  written := fun hr hactive hd => h.written (hkept.subset hr) hactive hd
  named := fun hr hactive hd => h.named (hkept.subset hr) hactive hd

end Writes

/-! ## What one operation keeps -/

section Calls
variable {log : Admissions} {files : Files}

theorem activeExecution_none (h : files.activeExecution = none) {r : ExecutionRecord}
    (hr : r ∈ files.executions) : r.isActive = false :=
  Bool.eq_false_iff.mpr (List.find?_eq_none.mp h r hr)

theorem activeExecution_some {r : ExecutionRecord} (h : files.activeExecution = some r) :
    r ∈ files.executions ∧ r.isActive = true :=
  ⟨List.mem_of_find?_eq_some h, List.find?_some h⟩

theorem throughout_one {write : Files → Files} (h : Reserved log files)
    (hwrite : Reserved log (write files)) : Throughout (Reserved log) [write] files := ⟨h, hwrite⟩

/-- Without an active attempt, writes that leave the records alone keep it so. -/
theorem throughout_free {writes : List (Files → Files)} (hfree : Free log files)
    (hwrites : ∀ write ∈ writes, ∀ f, (write f).executions = f.executions) :
    Throughout (Reserved log) writes files :=
  (throughout_of_kept (fun write hwrite f hf => Free.deltas hf (hwrites write hwrite f)) hfree).mono
    Free.reserved

theorem throughout_submitCandidate (h : Reserved log files) (delta : DeltaObject) (now : Time)
    (policy : CandidatePolicy) :
    Throughout (Reserved log) (Plan.writesOf (files.submitCandidate delta now policy)) files := by
  rw [submitCandidate]
  split
  · exact h
  · split
    · exact h
    · split
      · exact h
      · rename_i hnone
        have hfree : Free log files := ⟨h, activeExecution_none hnone⟩
        split
        · exact h
        · split
          · refine throughout_free hfree fun write hwrite f => ?_
            simp only [Plan.writesOf, List.mem_cons, List.not_mem_nil, or_false] at hwrite
            obtain rfl | rfl := hwrite
            · rfl
            · rfl
          · split
            · refine throughout_free hfree fun write hwrite f => ?_
              obtain hwrite | hwrite := List.mem_append.mp hwrite
              · split at hwrite
                · rw [List.mem_singleton.mp hwrite]
                  rfl
                · cases hwrite
              · simp only [List.mem_cons, List.not_mem_nil, or_false] at hwrite
                obtain rfl | rfl | rfl := hwrite
                · rfl
                · rfl
                · rfl
            · exact h

theorem pullDelta_mem {nonce : Nonce} {delta : DeltaObject}
    (h : files.pullDelta nonce = some delta) : delta ∈ files.deltas := (Table.find?_eq_some.mp h).1

theorem throughout_requestCandidateAbandon (h : Reserved log files) (nonce : Nonce)
    (newCommitment : Commitment) (now : Time) :
    Throughout (Reserved log) (files.requestCandidateAbandon nonce newCommitment now).writes
      files := by
  rw [requestCandidateAbandon]
  split
  · exact h
  · split
    · exact h
    · rename_i delta hpull
      split
      · exact h
      · rename_i hcandidate
        rw [not_or, Bool.not_eq_false] at hcandidate
        split
        · exact h
        · have hqueued := mem_candidates.mpr ⟨pullDelta_mem hpull, hcandidate.1⟩
          exact throughout_one h (kept_writeDelta_same hqueued ⟨rfl, rfl, rfl, rfl⟩ h)

theorem throughout_updateCandidateStatus (h : Reserved log files) (nonce : Nonce)
    (status : DeltaStatus) :
    Throughout (Reserved log) (files.updateCandidateStatus nonce status).writes files := by
  rw [updateCandidateStatus]
  split
  · exact h
  · rename_i delta hpull
    split
    · exact h
    · rename_i hcandidate
      rw [Bool.not_eq_false] at hcandidate
      split
      · exact h
      · split
        · exact h
        · have hqueued := mem_candidates.mpr ⟨pullDelta_mem hpull, hcandidate⟩
          exact throughout_one h (kept_writeDelta_same hqueued ⟨rfl, rfl, rfl, rfl⟩ h)

theorem kept_promotionWrites {p : CandidatePromotion} (hcanonical : p.delta.status.isCanonical = true)
    {cleanUp : List (Files → Files)}
    (hclean : ∀ write ∈ cleanUp, ∀ f, Reserved log f → Reserved log (write f)) :
    ∀ write ∈ promotionWrites p cleanUp, ∀ f, Reserved log f → Reserved log (write f) := by
  intro write hwrite f hf
  simp only [promotionWrites, List.mem_append, List.mem_cons, List.not_mem_nil, or_false] at hwrite
  obtain (((rfl | hauth) | rfl) | hwrite) | rfl | rfl := hwrite
  · exact kept_writeState _ hf
  · split at hauth
    · rw [List.mem_singleton.mp hauth]
      exact kept_setMetadata _ hf
    · cases hauth
  · exact kept_writeDelta_ended (isCandidate_of_isCanonical hcanonical) hf
  · exact hclean write hwrite f hf
  · exact kept_releasePendingFlag hf
  · exact kept_commitPromotedExecution _ _ _ hf

theorem throughout_promoteCandidate (h : Reserved log files) {p : CandidatePromotion}
    (hcanonical : p.delta.status.isCanonical = true) :
    Throughout (Reserved log) (Plan.writesOf (files.promoteCandidate p)) files := by
  rw [promoteCandidate]
  split
  · rw [restoreSuperseded]
    split
    · exact h
    · split
      · exact h
      · split
        · exact h
        · split
          · exact h
          · refine throughout_of_kept (fun write hwrite f hf => ?_) h
            obtain hwrite | hwrite := List.mem_append.mp hwrite
            · split at hwrite
              · rw [List.mem_singleton.mp hwrite]
                exact kept_archiveDelta _ _ hf
              · cases hwrite
            · refine kept_promotionWrites hcanonical (fun write hwrite f hf => ?_) write hwrite f hf
              obtain ⟨archived, -, rfl⟩ := List.mem_map.mp hwrite
              exact kept_removeArchived archived hf
  · split
    · exact h
    · split
      · split
        · exact h
        · split
          · exact h
          · refine throughout_of_kept (kept_promotionWrites hcanonical ?_) h
            rintro write ⟨⟩
      · exact h

theorem throughout_replaceState (h : Reserved log files) (state : StateObject)
    (expected : Commitment) :
    Throughout (Reserved log) (Plan.writesOf (files.replaceState state expected)) files := by
  rw [replaceState]
  split
  · exact h
  · split
    · exact h
    · exact throughout_one h (kept_writeState state h)

theorem throughout_discardCandidate (h : Reserved log files) (nonce : Nonce)
    (kind : DeltaStatusKind) :
    Throughout (Reserved log) (files.discardCandidate nonce kind).writes files := by
  rw [discardCandidate]
  split
  · exact h
  · split
    · exact h
    · have hdeleted := kept_deleteDelta nonce h
      exact ⟨h, hdeleted, kept_releasePendingFlag hdeleted⟩

theorem candidates_of_isEmpty (h : ¬ files.candidates.isEmpty = false) : files.candidates = [] :=
  List.isEmpty_iff.mp (Bool.not_eq_false _ ▸ h)

theorem throughout_createExecutionReservation (h : Reserved log files) (leaseFits : Bool)
    (proposalId : String) (fence : LeaseFence) (leaseExpiresAt now : Time) :
    Throughout (Reserved log) (Plan.writesOf
      (files.createExecutionReservation leaseFits proposalId fence leaseExpiresAt now)) files := by
  rw [createExecutionReservation]
  split
  · exact h
  · split
    · exact h
    · split
      · exact h
      · rename_i hnone
        split
        · exact h
        · rename_i hempty
          split
          · refine throughout_one h (kept_writeExecution ⟨h, activeExecution_none hnone⟩
              (candidates_of_isEmpty hempty) rfl rfl fun r hr => ?_)
            -- the new attempt is past every attempt of its proposal
            rw [← Bool.not_eq_true]
            intro hsame
            rw [ExecutionRecord.isAttempt, Bool.and_eq_true, beq_iff_eq, beq_iff_eq] at hsame
            obtain ⟨hproposal, hattempt⟩ := hsame
            have hmem : r.reservation.attempt ∈
                (files.executions.filter (·.reservation.proposalId == proposalId)).map
                  (·.reservation.attempt) :=
              List.mem_map.mpr ⟨r, List.mem_filter.mpr ⟨hr, beq_iff_eq.mpr hproposal.symm⟩, rfl⟩
            have hle := le_foldr_max hmem
            simp only at hattempt
            omega
          · exact h

theorem throughout_renewExecutionReservation (h : Reserved log files) (fence : LeaseFence)
    (leaseExpiresAt : Time) (phase : ExecutionPhase) (now : Time) :
    Throughout (Reserved log)
      (files.renewExecutionReservation fence leaseExpiresAt phase now).writes files := by
  rw [renewExecutionReservation]
  split
  · exact h
  · split
    · refine throughout_one h (kept_updateExecution _ _ (fun r => ?_) (fun _ => rfl) h)
      exact ⟨rfl, rfl, id, id⟩
    · exact h

theorem throughout_claimExecutionReservation (h : Reserved log files) (leaseFits : Bool)
    (expected claimant : LeaseFence) (leaseExpiresAt now : Time) :
    Throughout (Reserved log) (Plan.writesOf
      (files.claimExecutionReservation leaseFits expected claimant leaseExpiresAt now)) files := by
  rw [claimExecutionReservation]
  split
  · exact h
  · split
    · exact h
    · split
      · exact h
      · split
        · exact h
        · refine throughout_one h (kept_updateExecution _ _ (fun r => ?_) (fun _ => rfl) h)
          exact ⟨rfl, rfl, id, id⟩

theorem kept_removeCandidate (nonce : Nonce) :
    ∀ write ∈ files.removeCandidate nonce, ∀ f, Reserved log f → Reserved log (write f) := by
  intro write hwrite f hf
  rw [removeCandidate] at hwrite
  split at hwrite
  · rw [List.mem_singleton.mp hwrite]
    exact kept_deleteDelta nonce hf
  · cases hwrite

theorem throughout_resolveExecution (h : Reserved log files) (r : ExecutionResolution) :
    Throughout (Reserved log) (files.resolveExecution r).writes files := by
  rw [resolveExecution]
  split
  · exact h
  · split
    · exact h
    · refine throughout_of_kept (fun write hwrite f hf => ?_) h
      simp only [List.mem_append, List.mem_cons, List.not_mem_nil, or_false] at hwrite
      obtain (hwrite | hwrite) | rfl | rfl := hwrite
      · exact kept_removeCandidate _ write hwrite f hf
      · split at hwrite
        · rw [List.mem_singleton.mp hwrite]
          exact kept_deleteDeltaProposal _ hf
        · cases hwrite
      · exact kept_releasePendingFlag hf
      · exact kept_settleExecution _ _ _ hf

theorem throughout_failExecution (h : Reserved log files) (r : ExecutionResolution) :
    Throughout (Reserved log) (files.failExecution r).writes files := by
  rw [failExecution]
  split
  · exact h
  · split
    · exact h
    · refine throughout_of_kept (fun write hwrite f hf => ?_) h
      obtain hwrite | hwrite := List.mem_append.mp hwrite
      · split at hwrite
        · exact kept_removeCandidate _ write hwrite f hf
        · cases hwrite
      · rw [List.mem_singleton.mp hwrite]
        exact kept_settleExecution _ _ _ hf

theorem throughout_settlePromotedExecution (h : Reserved log files) (fence : LeaseFence)
    (now : Time) :
    Throughout (Reserved log) (Plan.writesOf (files.settlePromotedExecution fence now)) files := by
  rw [settlePromotedExecution]
  split
  · exact h
  · split
    · exact h
    · split
      · exact h
      · split
        · exact h
        · split
          · exact throughout_one h (kept_settleExecution _ _ _ h)
          · exact h

theorem throughout_pruneAccountExecutions (h : Reserved log files) (cutoff : Time) (limit : Nat) :
    Throughout (Reserved log) (files.pruneAccountExecutions cutoff limit).writes files := by
  rw [pruneAccountExecutions]
  split
  · exact throughout_one h (kept_prune (dropUpTo_sublist _ limit _) h)
  · exact h

/-! ## Admission -/

/-- Where an admission starts to write: the attempt is active, short of its boundary,
and nothing is queued. -/
structure Ready (log : Admissions) (active : ExecutionRecord) (files : Files) : Prop where
  reserved : Reserved log files
  mem : active ∈ files.executions
  isActive : active.isActive = true
  noEvidence : active.evidence = none
  empty : files.candidates = []

theorem Ready.archiveDelta {active : ExecutionRecord} (h : Ready log active files)
    (delta : DeltaObject) (now : Time) : Ready log active (files.archiveDelta delta now) :=
  ⟨kept_archiveDelta delta now h.reserved, h.mem, h.isActive, h.noEvidence, h.empty⟩

theorem Ready.deleteDelta {active : ExecutionRecord} (h : Ready log active files) (nonce : Nonce) :
    Ready log active (files.deleteDelta nonce) := by
  refine ⟨kept_deleteDelta nonce h.reserved, h.mem, h.isActive, h.noEvidence, ?_⟩
  refine List.eq_nil_iff_forall_not_mem.mpr fun d hd => ?_
  obtain ⟨hmem, hcandidate⟩ := mem_candidates.mp hd
  have hold := mem_candidates.mpr ⟨(mem_deleteDelta.mp hmem).1, hcandidate⟩
  rw [h.empty] at hold
  cases hold

/-- The marker names no candidate yet. -/
theorem Ready.marked {active : ExecutionRecord} (h : Ready log active files)
    (marker : InterruptedAdmission) : Reserved log (files.writeAdmissionMarker marker) where
  attempts := h.reserved.attempts
  outcome := h.reserved.outcome
  single := h.reserved.single
  written := fun _ _ hd => by
    have hd' : _ ∈ files.candidates := hd
    rw [h.empty] at hd'
    cases hd'
  named := fun _ _ hd => by
    have hd' : _ ∈ files.candidates := hd
    rw [h.empty] at hd'
    cases hd'

/-- The admission of this attempt, as noted. -/
def Notes (log : Admissions) (active : ExecutionRecord) (delta : DeltaObject) : Prop :=
  ∃ written ∈ log, active.isAttempt written.proposalId written.attempt = true ∧
    written.delta = delta

section Admission
variable {active : ExecutionRecord} {a : CandidateAdmission}

/-- Behind the marker, the candidate is the only one. -/
theorem Ready.queued (h : Ready log active files) (marker : InterruptedAdmission)
    (delta : DeltaObject) {d : DeltaObject}
    (hd : d ∈ ((files.writeAdmissionMarker marker).writeDelta delta).candidates) : d = delta := by
  obtain ⟨hmem, hcandidate⟩ := mem_candidates.mp hd
  obtain heq | ⟨hold, -⟩ := mem_writeDelta.mp hmem
  · exact heq
  · have hqueued : d ∈ files.candidates := mem_candidates.mpr ⟨hold, hcandidate⟩
    rw [h.empty] at hqueued
    cases hqueued

theorem Ready.written (h : Ready log active files) (hnotes : Notes log active a.delta) :
    Reserved log ((files.writeAdmissionMarker
      ⟨active.reservation.proposalId, active.reservation.attempt, a.delta.nonce⟩).writeDelta
        a.delta) where
  attempts := h.reserved.attempts
  outcome := h.reserved.outcome
  single := h.reserved.single
  written := fun {r d} hr hactive hd => by
    obtain rfl := h.reserved.single hr h.mem hactive h.isActive
    obtain ⟨written, hmem, hattempt, heq⟩ := hnotes
    rw [h.queued _ _ hd, ← heq]
    exact ⟨written, hmem, hattempt, SameDelta.refl _⟩
  named := fun {r d} hr hactive hd => by
    obtain rfl := h.reserved.single hr h.mem hactive h.isActive
    rw [h.queued _ _ hd, Named, h.noEvidence]
    refine ⟨_, rfl, ?_, rfl⟩
    rw [InterruptedAdmission.belongsTo, Bool.and_eq_true, beq_iff_eq, beq_iff_eq]
    exact ⟨rfl, rfl⟩

theorem admitWith_rewrites (evidence : SubmissionEvidence) (r : ExecutionRecord) :
    Rewrites r (r.admitWith evidence) := ⟨rfl, rfl, id, id⟩

theorem isAttempt_self (r : ExecutionRecord) :
    r.isAttempt r.reservation.proposalId r.reservation.attempt = true := by
  rw [ExecutionRecord.isAttempt, beq_self_eq_true, beq_self_eq_true]
  rfl

/-- Wherever an admission stops. -/
theorem Ready.throughout (h : Ready log active files) (hnotes : Notes log active a.delta)
    (hdescribes : a.evidence.describes a.delta = true) :
    Throughout (Reserved log) (admissionWrites active a) files := by
  have hwritten := h.written hnotes
  have hflagged := kept_setMetadata (fun m => { m with hasPendingCandidate := true }) hwritten
  refine ⟨h.reserved, h.marked _, hwritten, hflagged, ?_⟩
  refine kept_rewrite (rewriteAttempt_rewrites (admitWith_rewrites a.evidence) _ _)
    (fun r hr hactive d hd => ?_) hflagged
  obtain rfl := h.reserved.single hr h.mem hactive h.isActive
  show Named _ (if r.isAttempt r.reservation.proposalId r.reservation.attempt then _ else r) d
  rw [if_pos (isAttempt_self r), h.queued _ _ hd]
  exact hdescribes

end Admission

theorem authorizes_isAttempt {r : ExecutionRecord} {fence : LeaseFence} {proposalId : String}
    {attempt : Nat} (h : r.reservation.authorizes fence proposalId attempt = true) :
    r.isAttempt proposalId attempt = true := by
  rw [ExecutionReservation.authorizes, Bool.and_assoc, Bool.and_eq_true] at h
  exact h.2

/-- What an admission checked before its first write. -/
structure AdmissionChecks (files : Files) (a : CandidateAdmission) (active : ExecutionRecord) :
    Prop where
  describes : a.evidence.describes a.delta = true
  found : files.activeExecution = some active
  authorizes : active.reservation.authorizes a.fence a.proposalId a.attempt = true
  noEvidence : active.evidence = none
  empty : files.candidates = []

/-- An admission writes nothing, or what it writes is behind its checks, after a
parked row at its nonce has been moved away. -/
theorem admitExecutionCandidate_cases (files : Files) (a : CandidateAdmission) :
    Plan.writesOf (files.admitExecutionCandidate a) = [] ∨
    ∃ active writes, AdmissionChecks files a active ∧
      files.admitExecutionCandidate a = some ⟨writes ++ admissionWrites active a, .admitted⟩ ∧
      ∀ write ∈ writes, (∃ existing, write = archiveDelta existing a.now) ∨
        write = deleteDelta a.delta.nonce := by
  rw [admitExecutionCandidate]
  split
  · exact .inl rfl
  · rename_i hdescribes
    split
    · exact .inl rfl
    · rename_i active hactive
      split
      · exact .inl rfl
      · rename_i hauthorized
        rw [not_or, Bool.not_eq_false] at hauthorized
        split
        · exact .inl rfl
        · split
          · exact .inl rfl
          · split
            · exact .inl rfl
            · split
              · exact .inl rfl
              · split
                · exact .inl rfl
                · split
                  · exact .inl rfl
                  · rename_i hempty
                    have hchecks : AdmissionChecks files a active :=
                      ⟨Bool.not_eq_false _ ▸ hdescribes, hactive, hauthorized.1,
                        Option.not_isSome_iff_eq_none.mp hauthorized.2,
                        candidates_of_isEmpty hempty⟩
                    split
                    · refine .inr ⟨active, [], hchecks, rfl, ?_⟩
                      rintro write ⟨⟩
                    · rename_i existing hexisting
                      split
                      · refine .inr ⟨active, _, hchecks, rfl, fun write hwrite => ?_⟩
                        obtain hwrite | hwrite := List.mem_append.mp hwrite
                        · split at hwrite
                          · exact .inl ⟨existing, List.mem_singleton.mp hwrite⟩
                          · cases hwrite
                        · exact .inr (List.mem_singleton.mp hwrite)
                      · exact .inl rfl

theorem throughout_admitExecutionCandidate (h : Reserved log files) (a : CandidateAdmission) :
    Throughout (Reserved (FileCall.note files log (.admitExecutionCandidate a)))
      (Plan.writesOf (files.admitExecutionCandidate a)) files := by
  obtain hnothing | ⟨active, writes, hchecks, hplan, hwrites⟩ := admitExecutionCandidate_cases files a
  · rw [hnothing]
    refine h.log_mono ?_
    rw [FileCall.note]
    split
    · exact List.subset_cons_self _ _
    · exact List.Subset.refl _
  · have hnote : FileCall.note files log (.admitExecutionCandidate a) =
        ⟨a.proposalId, a.attempt, a.delta⟩ :: log := by
      rw [FileCall.note, hplan]
    rw [hnote, hplan]
    obtain ⟨hmem, hactive⟩ := activeExecution_some hchecks.found
    have hready : Ready (⟨a.proposalId, a.attempt, a.delta⟩ :: log) active files :=
      ⟨h.log_mono (List.subset_cons_self _ _), hmem, hactive, hchecks.noEvidence, hchecks.empty⟩
    have hcleared : Throughout (Ready (⟨a.proposalId, a.attempt, a.delta⟩ :: log) active) writes
        files := by
      refine throughout_of_kept (fun write hwrite f hf => ?_) hready
      obtain ⟨existing, rfl⟩ | rfl := hwrites write hwrite
      · exact hf.archiveDelta existing a.now
      · exact hf.deleteDelta a.delta.nonce
    refine (hcleared.mono Ready.reserved).append ?_
    refine hcleared.finished.throughout ⟨_, List.mem_cons_self, ?_, rfl⟩ hchecks.describes
    exact authorizes_isAttempt hchecks.authorizes

/-- Wherever an operation stops. -/
theorem throughout_call (h : Reserved log files) {c : FileCall} (hfits : c.fits) :
    Throughout (Reserved (c.note files log)) (c.writes files) files := by
  cases c with
  | submitCandidate delta now policy => exact throughout_submitCandidate h delta now policy
  | requestCandidateAbandon nonce new now => exact throughout_requestCandidateAbandon h nonce new now
  | promoteCandidate p => exact throughout_promoteCandidate h hfits
  | replaceState state expected => exact throughout_replaceState h state expected
  | discardCandidate nonce kind => exact throughout_discardCandidate h nonce kind
  | updateCandidateStatus nonce status => exact throughout_updateCandidateStatus h nonce status
  | createExecutionReservation fits proposalId fence leaseExpiresAt now =>
    exact throughout_createExecutionReservation h fits proposalId fence leaseExpiresAt now
  | renewExecutionReservation fence leaseExpiresAt phase now =>
    exact throughout_renewExecutionReservation h fence leaseExpiresAt phase now
  | claimExecutionReservation fits expected claimant leaseExpiresAt now =>
    exact throughout_claimExecutionReservation h fits expected claimant leaseExpiresAt now
  | admitExecutionCandidate a => exact throughout_admitExecutionCandidate h a
  | resolveExecution r => exact throughout_resolveExecution h r
  | failExecution r => exact throughout_failExecution h r
  | settlePromotedExecution fence now => exact throughout_settlePromotedExecution h fence now
  | pruneAccountExecutions cutoff limit => exact throughout_pruneAccountExecutions h cutoff limit

end Calls

/-! ## Every run -/

theorem start_reserved {start : Files} (h : start.executions = []) : Reserved [] start where
  attempts := by
    rw [h]
    exact .nil
  outcome := fun hr => by
    rw [h] at hr
    cases hr
  single := fun hr => by
    rw [h] at hr
    cases hr
  written := fun hr => by
    rw [h] at hr
    cases hr
  named := fun hr => by
    rw [h] at hr
    cases hr

theorem FilesReached.reserved {start files : Files} {log : Admissions}
    (hstart : start.executions = []) (h : FilesReached start files log) : Reserved log files := by
  induction h with
  | init => exact start_reserved hstart
  | call c n hfits _ ih => exact (throughout_call ih hfits).stopped n
  | other change _ ih => exact ih.fewer (List.Subset.refl _) rfl rfl

end Guardian
