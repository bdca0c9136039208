import Guardian.Rows

/- The attempts of an account. Attempts are told apart by proposal and number,
   an attempt is active until it has an outcome, and one is active at a time, so
   every transaction that touches an attempt touches the active one alone. -/
namespace Guardian

open Interleaving

/-- The attempt's proposal and number. -/
def ExecutionRecord.key (e : ExecutionRecord) : String × Nat :=
  (e.reservation.proposalId, e.reservation.attempt)

theorem ExecutionRecord.isAttempt_iff {e : ExecutionRecord} {proposalId : String} {attempt : Nat} :
    e.isAttempt proposalId attempt = true ↔ e.key = (proposalId, attempt) := by
  simp [isAttempt, key]

/-- Keys are unique, and the active attempt is the one without an outcome. -/
structure Db.AttemptInv (db : Db) : Prop where
  unique : ∀ {a b}, a ∈ db.executions → b ∈ db.executions → a.key = b.key → a = b
  active_iff : ∀ {e}, e ∈ db.executions → e.isActive = e.outcome.isNone
  single : ∀ {a b}, a ∈ db.executions → b ∈ db.executions → a.isActive = true →
    b.isActive = true → a = b

namespace Db.AttemptInv
variable {db db' : Db}

theorem active_eq (h : db.AttemptInv) {e : ExecutionRecord} (he : e ∈ db.executions)
    (hout : e.outcome = none) : db.activeExecution = some e := by
  have hactive : e.isActive = true := by rw [h.active_iff he, hout]; rfl
  cases ha : db.activeExecution with
  | none =>
    rw [Db.activeExecution_eq_none.mp ha e he] at hactive
    cases hactive
  | some a =>
    obtain ⟨hmem, haa⟩ := Db.activeExecution_eq_some ha
    rw [h.single hmem he haa hactive]

theorem outcome_none (h : db.AttemptInv) {e : ExecutionRecord} (ha : db.activeExecution = some e) :
    e.outcome = none := by
  obtain ⟨hmem, hactive⟩ := Db.activeExecution_eq_some ha
  rw [h.active_iff hmem] at hactive
  simpa using hactive

/-- Updating an attempt by its key touches it alone. -/
theorem mem_update (h : db.AttemptInv) {e e' : ExecutionRecord} (he : e ∈ db.executions)
    {f : ExecutionRecord → ExecutionRecord} :
    e' ∈ (db.updateExecution e.reservation.proposalId e.reservation.attempt f).executions ↔
      e' = f e ∨ (e' ∈ db.executions ∧ e' ≠ e) := by
  have hat : ∀ {a}, a ∈ db.executions →
      (a.isAttempt e.reservation.proposalId e.reservation.attempt = true ↔ a = e) := by
    intro a ha
    rw [ExecutionRecord.isAttempt_iff]
    exact ⟨fun hk => h.unique ha he hk, fun heq => by rw [heq]; rfl⟩
  simp only [Db.updateExecution, List.mem_map]
  constructor
  · rintro ⟨a, ha, rfl⟩
    by_cases heq : a = e
    · rw [if_pos ((hat ha).mpr heq), heq]
      exact .inl rfl
    · rw [if_neg (fun hc => heq ((hat ha).mp hc))]
      exact .inr ⟨ha, heq⟩
  · rintro (rfl | ⟨ha, hne⟩)
    · exact ⟨e, he, by rw [if_pos ((hat he).mpr rfl)]⟩
    · exact ⟨e', ha, by rw [if_neg (fun hc => hne ((hat ha).mp hc))]⟩

end Db.AttemptInv

/-- How a call changes the active attempt. -/
inductive Touch (db db' : Db) (op : Op) (e : ExecutionRecord) :
    (ExecutionRecord → ExecutionRecord) → Prop where
  | renewed {tx : Tx} {f : ExecutionRecord → ExecutionRecord} (keeps : Db.KeepsAttempt f)
      (call : op = .commit tx) (renews : tx.renews = true) : Touch db db' op e f
  | admitted {a : CandidateAdmission} (call : op = .commit (.admitExecutionCandidate a))
      (h : Db.Admitted a db db') (key : e.key = (a.proposalId, a.attempt))
      (evidence : e.evidence = none) : Touch db db' op e (·.admitWith a.evidence)
  | committed {p : CandidatePromotion} {evidence : SubmissionEvidence}
      (call : op = .commit (.promoteCandidate p)) (h : Db.Promoted p db db')
      (has : e.evidence = some evidence) (nonce : evidence.candidateNonce = p.delta.nonce)
      (reached : eqIgnoreAsciiCase evidence.expectedCommitment p.state.commitment = true) :
      Touch db db' op e (·.settleAs .committed p.now)
  | settled {now : Time} {evidence : SubmissionEvidence} {row : DeltaRow} {state : StateObject}
      (has : e.evidence = some evidence) (at_nonce : db.rowAt evidence.candidateNonce = some row)
      (canonical : row.delta.status.isCanonical = true) (stored : db.state = some state)
      (reached : eqIgnoreAsciiCase state.commitment evidence.expectedCommitment = true) :
      Touch db db' op e (·.settleAs .committed now)
  | failed {resolution : ExecutionResolution} {crossed : Bool}
      (call : op = .commit (.resolveExecution resolution crossed))
      (h : Db.Resolved resolution crossed db db')
      (key : e.key = (resolution.proposalId, resolution.attempt))
      (crossed : e.boundaryCrossed = crossed) :
      Touch db db' op e (·.settleAs (.failed resolution.failure) resolution.now)

/-- What a call does to the attempts. -/
inductive AttemptStep (db db' : Db) (op : Op) : Prop where
  | same (h : db'.executions = db.executions)
  | reserved {record : ExecutionRecord} (h : Db.Reserved record db db')
      (call : ∃ p f t, op = .commit (.createExecutionReservation p f t))
  | touched {e : ExecutionRecord} {f : ExecutionRecord → ExecutionRecord} (mem : e ∈ db.executions)
      (outcome : e.outcome = none) (touch : Touch db db' op e f)
      (eq : db'.executions =
        (db.updateExecution e.reservation.proposalId e.reservation.attempt f).executions)

theorem Effect.attempts {pid : Nat} {op : Op} {w w' : World} (hi : w.db.AttemptInv)
    (h : Effect pid w op w') : AttemptStep w.db w'.db op := by
  cases h with
  | idle | read | began | rolledBack | asked | returned => exact .same rfl
  | stateSubmitted | stateReplaced | metadataCreated | pruned | leased => exact .same rfl
  | submitted h | discarded h => exact .same h.executions
  | abandonRecorded h | updated h => exact .same h.rest.executions
  | authSet =>
    refine .same ?_
    simp only [Db.setMetadataRow]
    split <;> rfl
  | flagCleared =>
    refine .same ?_
    rw [Db.clearPendingFlagIfNone_eq]
    rfl
  | plain h => exact .same h.executions
  | promoted h =>
    rcases h.executions with heq | ⟨e, evidence, ha, hev, hn, hreached, hout, heq⟩
    · exact .same heq
    · exact .touched (Db.activeExecution_eq_some ha).1 hout (.committed rfl h hev hn hreached) heq
  | reserved h => exact .reserved h ⟨_, _, _, rfl⟩
  | renewed h hcall =>
    obtain ⟨e, f, ha, hkeeps, heq⟩ := h.renews
    exact .touched (Db.activeExecution_eq_some ha).1 (hi.outcome_none ha)
      (.renewed hkeeps rfl hcall) (congrArg Db.executions heq)
  | @admitted a _ h =>
    obtain ⟨e, ha, hev, hpid, hatt⟩ := h.active
    refine .touched (Db.activeExecution_eq_some ha).1 (hi.outcome_none ha)
      (.admitted rfl h (Prod.ext hpid hatt) hev) ?_
    rw [hpid, hatt]
    exact h.executions
  | settled h =>
    obtain ⟨e, evidence, row, state, ha, hev, hout, hrow, hcan, hstate, hreached, heq⟩ := h.settles
    exact .touched (Db.activeExecution_eq_some ha).1 hout (.settled hev hrow hcan hstate hreached)
      (congrArg Db.executions heq)
  | @resolved resolution crossed _ h =>
    obtain ⟨e, he, hout, hcrossed, heq, _⟩ := h.fails
    have hkey : e.key = (resolution.proposalId, resolution.attempt) := by
      unfold Db.attemptRecord at he
      have hat := List.find?_some he
      exact ExecutionRecord.isAttempt_iff.mp hat
    exact .touched (List.mem_of_find?_eq_some he) hout (.failed rfl h hkey hcrossed) heq

namespace Touch
variable {db db' : Db} {op : Op} {e : ExecutionRecord} {f : ExecutionRecord → ExecutionRecord}

theorem key_eq (h : Touch db db' op e f) : (f e).key = e.key := by
  cases h with
  | renewed keeps =>
    obtain ⟨_, _, _, hp, ha⟩ := keeps e
    exact Prod.ext hp ha
  | _ => rfl

theorem active_iff (h : Touch db db' op e f) (he : e.isActive = e.outcome.isNone) :
    (f e).isActive = (f e).outcome.isNone := by
  cases h with
  | renewed keeps =>
    obtain ⟨_, hout, hrel, _, _⟩ := keeps e
    rw [hout, ← he]
    exact congrArg Option.isNone hrel
  | admitted => exact he
  | committed | settled | failed => rfl

end Touch

namespace Db.AttemptInv
variable {db db' : Db} {op : Op}

theorem of_step (h : db.AttemptInv) (hs : AttemptStep db db' op) : db'.AttemptInv := by
  cases hs with
  | same heq => exact ⟨by rw [heq]; exact h.unique, by rw [heq]; exact h.active_iff,
      by rw [heq]; exact h.single⟩
  | @reserved record hr =>
    have hmem : ∀ {e}, e ∈ db'.executions ↔ e ∈ db.executions ∨ e = record := by
      simp [hr.eq]
    have hnew : ∀ {e}, e ∈ db.executions → e.key ≠ record.key := by
      intro e he hk
      have hfresh := hr.fresh e he
      rw [ExecutionRecord.isAttempt_iff.mpr hk] at hfresh
      cases hfresh
    have hidle := Db.activeExecution_eq_none.mp hr.inactive
    refine ⟨fun ha hb hk => ?_, fun he => ?_, fun ha hb haa hba => ?_⟩
    · rcases hmem.mp ha with ha | rfl <;> rcases hmem.mp hb with hb | rfl
      · exact h.unique ha hb hk
      · exact absurd hk (hnew ha)
      · exact absurd hk.symm (hnew hb)
      · rfl
    · rcases hmem.mp he with he | rfl
      · exact h.active_iff he
      · rw [hr.active, hr.outcome]; rfl
    · rcases hmem.mp ha with ha | rfl
      · rw [hidle _ ha] at haa
        cases haa
      · rcases hmem.mp hb with hb | rfl
        · rw [hidle _ hb] at hba
          cases hba
        · rfl
  | @touched e f he hout ht heq =>
    have hmem : ∀ {e'}, e' ∈ db'.executions ↔ e' = f e ∨ (e' ∈ db.executions ∧ e' ≠ e) := by
      intro e'
      rw [heq]
      exact h.mem_update he
    have hactive : e.isActive = true := by rw [h.active_iff he, hout]; rfl
    refine ⟨fun ha hb hk => ?_, fun ha => ?_, fun ha hb haa hba => ?_⟩
    · rcases hmem.mp ha with rfl | ⟨ha, hane⟩ <;> rcases hmem.mp hb with rfl | ⟨hb, hbne⟩
      · rfl
      · exact absurd (h.unique he hb (ht.key_eq.symm.trans hk)) hbne.symm
      · exact absurd (h.unique ha he (hk.trans ht.key_eq)) hane
      · exact h.unique ha hb hk
    · rcases hmem.mp ha with rfl | ⟨ha, _⟩
      · exact ht.active_iff (h.active_iff he)
      · exact h.active_iff ha
    · -- every other attempt was inactive already
      rcases hmem.mp ha with rfl | ⟨ha, hane⟩
      · rcases hmem.mp hb with rfl | ⟨hb, hbne⟩
        · rfl
        · exact absurd (h.single hb he hba hactive) hbne
      · exact absurd (h.single ha he haa hactive) hane

theorem of_reachable {net : Network} {cfg : Config} {G : RunGuard} {w₀ : World}
    (hfresh : w₀.Fresh net) {c : SystemConf} (h : Reachable net cfg G w₀ c) :
    c.world.db.AttemptInv := by
  have h0 : w₀.db.AttemptInv := by
    constructor <;> simp [hfresh.executions]
  exact Reachable.induct (I := fun w => w.db.AttemptInv) h0 (fun _ heff hi => hi.of_step (heff.attempts hi))
    (fun hact hi => by rwa [hact.db]) h

end Db.AttemptInv

/-! ## Before and after a call -/

section Calls
variable {pid : Nat} {op : Op} {w w' : World}

/-- An attempt after a call was there before, has just been reserved, or is the
active one touched. -/
theorem Effect.attempt_back (hi : w.db.AttemptInv) (h : Effect pid w op w') {e' : ExecutionRecord}
    (he' : e' ∈ w'.db.executions) :
    e' ∈ w.db.executions ∨ (e'.evidence = none ∧ e'.outcome = none) ∨
    ∃ e f, e ∈ w.db.executions ∧ e.outcome = none ∧ Touch w.db w'.db op e f ∧ e' = f e := by
  cases h.attempts hi with
  | same heq => exact .inl (heq ▸ he')
  | reserved hr =>
    rw [hr.eq] at he'
    rcases List.mem_append.mp he' with he' | he'
    · exact .inl he'
    · rw [List.mem_singleton.mp he']
      exact .inr (.inl ⟨hr.evidence, hr.outcome⟩)
  | @touched e f he hout ht heq =>
    rw [heq, hi.mem_update he] at he'
    rcases he' with rfl | ⟨he', _⟩
    · exact .inr (.inr ⟨e, f, he, hout, ht, rfl⟩)
    · exact .inl he'

/-- An attempt stays, and with it its evidence. -/
theorem Effect.attempt_to (hi : w.db.AttemptInv) (h : Effect pid w op w') {e : ExecutionRecord}
    (he : e ∈ w.db.executions) : ∃ e' ∈ w'.db.executions, e'.key = e.key ∧
      (e.evidence ≠ none → e'.evidence = e.evidence) := by
  cases h.attempts hi with
  | same heq => exact ⟨e, heq ▸ he, rfl, fun _ => rfl⟩
  | reserved hr => exact ⟨e, by rw [hr.eq]; exact List.mem_append_left _ he, rfl, fun _ => rfl⟩
  | @touched a f ha hout ht heq =>
    by_cases hsame : e = a
    · subst hsame
      refine ⟨f e, by rw [heq, hi.mem_update ha]; exact .inl rfl, ht.key_eq, fun hev => ?_⟩
      cases ht with
      | renewed keeps => exact (keeps e).1
      | admitted _ _ _ hnone => exact absurd hnone hev
      | committed | settled | failed => rfl
    · exact ⟨e, by rw [heq, hi.mem_update ha]; exact .inr ⟨he, hsame⟩, rfl, fun _ => rfl⟩

/-- A resolution leaves no attempt without an outcome. -/
theorem Db.Resolved.settles {db db' : Db} {resolution : ExecutionResolution} {crossed : Bool}
    (hi : db.AttemptInv) (h : db.Resolved resolution crossed db') {e' : ExecutionRecord}
    (he' : e' ∈ db'.executions) : e'.outcome ≠ none := by
  obtain ⟨e, hat, hout, _, heq, _⟩ := h.fails
  have he : e ∈ db.executions := List.mem_of_find?_eq_some hat
  rw [heq, hi.mem_update he] at he'
  rcases he' with rfl | ⟨he', hne⟩
  · simp [ExecutionRecord.settleAs]
  · intro hnone
    have hsame := (hi.active_eq he' hnone).symm.trans (hi.active_eq he hout)
    exact hne (Option.some.inj hsame)

end Calls
end Guardian
