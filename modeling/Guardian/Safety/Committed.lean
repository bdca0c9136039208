import Guardian.Safety.Attempts
import Guardian.Safety.ChainHistory

/- An attempt is committed only when it landed. Between its admission and its
   outcome an attempt owns the row its admission inserted: the row can neither
   be parked, deleted nor superseded, and the only thing that ends it is a
   promotion at its nonce or the attempt's own failure. So whatever settles the
   attempt as committed, a promotion or the reconciler, finds that very row, and
   it compares the commitment it settles on with the attempt's own.

   What is assumed of the rest of the server is the guard `storesOnChain`: the
   stored state is one the account has had. -/
namespace Guardian

open Interleaving

/-- The stored commitment is one the account has had. -/
def World.storesOnChain (w : World) : Bool :=
  w.db.state.all (fun s => decide (s.commitment ∈ w.chain.history))

/-- Runs in which a stored or promoted commitment is on chain. -/
def storesOnChain : RunGuard := .calls (fun _ _ _ w' => w'.storesOnChain)

section Rows
variable {net : Network} {cfg : Config} {pid : Nat} {op : Op} {w w' : World} {r : DeltaRow}

/-- A canonical row stays. -/
theorem canonical_kept (h : Effect pid w op w') (hfits : op.Fits net cfg) (hr : r ∈ w.db.deltas)
    (hc : r.delta.status.isCanonical = true) : r ∈ w'.db.deltas := by
  have hkind : ∀ {s : DeltaStatus}, s.isCanonical = true →
      s.isCandidate = false ∧ s.isParked = false ∧ s.kind = .canonical := by
    intro s hs
    cases s <;> first | exact ⟨rfl, rfl, rfl⟩ | cases hs
  obtain ⟨hcand, hparked, hk⟩ := hkind hc
  cases h.row_to hr with
  | kept hmem => exact hmem
  | superseded _ _ hp | replaced _ _ _ _ hp =>
    rw [hparked] at hp
    cases hp
  | abandoned _ hrec =>
    rw [hrec.candidate] at hcand
    cases hcand
  | updated _ hup =>
    rw [hup.candidate] at hcand
    cases hcand
  | @flipped p _ _ _ hm hs =>
    cases hstatus : r.delta.status <;> cases hsrc : p.source <;>
      simp_all [PromotableKind.matches, DeltaStatus.isCandidate, DeltaStatus.isRetained,
        DeltaStatus.isClientAbandoned, DeltaStatus.isCanonical]
  | discarded hcall hdis =>
    subst hcall
    have hrow := hdis.row_kind
    rw [hk] at hrow
    rcases hfits.2 with hret | ⟨hcan, _⟩ <;> simp_all
  | resolved _ _ _ _ _ hcand' =>
    rw [hcand] at hcand'
    cases hcand'

/-- The candidate an active attempt owns stays queued, or is promoted, unless
the attempt is resolved. -/
theorem owned_to (h : Effect pid w op w') (hr : r ∈ w.db.deltas)
    (hc : r.delta.status.isCandidate = true) (howned : w.db.owningExecution r.delta.nonce ≠ none)
    (hresolved : ∀ resolution crossed, op = .commit (.resolveExecution resolution crossed) →
      ¬w.db.Resolved resolution crossed w'.db) :
    (∃ r' ∈ w'.db.deltas, r'.id = r.id ∧ SameDelta r'.delta r.delta ∧
      r'.delta.status.isCandidate = true) ∨
    ∃ p, op = .commit (.promoteCandidate p) ∧ Db.Promoted p w.db w'.db ∧
      r.delta.nonce = p.delta.nonce ∧ p.source.matches r.delta.status = true ∧
      r.rewrite (fun _ => p.delta.status) (fun _ => p.delta.newCommitment) ∈ w'.db.deltas := by
  have hnot : r.delta.status.isParked = false := by
    by_contra hp
    rw [Db.isCandidate_of_isParked (by simpa using hp)] at hc
    cases hc
  cases h.row_to hr with
  | kept hmem => exact .inl ⟨r, hmem, rfl, .refl _, hc⟩
  | superseded _ _ hp | replaced _ _ _ _ hp =>
    rw [hnot] at hp
    cases hp
  | abandoned _ hrec => exact absurd (hrec.row_nonce ▸ hrec.unowned) howned
  | @updated _ status _ hcall hup hmem =>
    refine .inl ⟨_, hmem, rfl, rewrite_same _ _, ?_⟩
    -- any other status would be refused on a row an execution owns
    have hkind : status.kind = .candidate := by
      by_contra hk
      exact howned (hup.row_nonce ▸ hup.unprotected hk)
    simp only [DeltaRow.rewrite, DeltaStatus.isCandidate_withAbandonRequestPreservedFrom]
    cases status <;> first | rfl | cases hkind
  | flipped hcall hprom hn hm _ hmem => exact .inr ⟨_, hcall, hprom, hn, hm, hmem⟩
  | @discarded _ kind _ hcall hdis =>
    have hk : kind = .candidate := by
      rw [← hdis.row_kind]
      cases hs : r.delta.status <;> simp_all [DeltaStatus.isCandidate, DeltaStatus.kind]
    exact absurd (hdis.row_nonce ▸ hdis.unprotected hk) howned
  | resolved hcall hres => exact absurd hres (hresolved _ _ hcall)

theorem owned_kept (h : Effect pid w op w') (hfits : op.Fits net cfg) (hr : r ∈ w.db.deltas)
    (hc : r.delta.status.isCandidate = true) (howned : w.db.owningExecution r.delta.nonce ≠ none)
    (hresolved : ∀ resolution crossed, op = .commit (.resolveExecution resolution crossed) →
      ¬w.db.Resolved resolution crossed w'.db) :
    ∃ r' ∈ w'.db.deltas, r'.id = r.id ∧ r'.delta.nonce = r.delta.nonce ∧
      (r'.delta.status.isCanonical = true ∨ r'.delta.status.isCandidate = true) := by
  obtain ⟨r', hr', hid, hsame, hc'⟩ | ⟨p, rfl, _, _, _, hmem⟩ := owned_to h hr hc howned hresolved
  · exact ⟨r', hr', hid, hsame.nonce, .inr hc'⟩
  · exact ⟨_, hmem, rfl, rfl, .inl hfits.canonical.1⟩

/-- A promotion at a candidate's nonce makes that row canonical. -/
theorem promoted_canonical {p : CandidatePromotion} {db db' : Db} (h : db.Promoted p db')
    (hfits : Op.Fits net cfg (.commit (.promoteCandidate p))) (hr : r ∈ db.deltas)
    (hn : r.delta.nonce = p.delta.nonce) (hnot : r.delta.status.isParked = false) :
    ∃ r' ∈ db'.deltas, r'.id = r.id ∧ r'.delta.nonce = r.delta.nonce ∧
      r'.delta.status.isCanonical = true := by
  rcases h.row with ⟨row, hrow, _, _, hrw⟩ | ⟨_, hres⟩
  · have hsame : row = r := Db.eq_of_nonce hrw.mem_row hr (hrow.trans hn.symm)
    subst hsame
    exact ⟨_, hrw.mem.mpr (.inl rfl), rfl, rfl, hfits.canonical.1⟩
  · rw [hres.inserts.parked hr hn] at hnot
    cases hnot

end Rows

/-- Only an admission notes a row. -/
theorem Effect.executionRows_cases {pid : Nat} {op : Op} {w w' : World} (h : Effect pid w op w') :
    w'.ghost.executionRows = w.ghost.executionRows ∨
    ∃ a, op = .commit (.admitExecutionCandidate a) ∧ Db.Admitted a w.db w'.db ∧
      w'.ghost.executionRows = ((a.proposalId, a.attempt), w.db.nextId) :: w.ghost.executionRows := by
  cases h with
  | admitted h => exact .inr ⟨_, rfl, h, rfl⟩
  | _ => exact .inl rfl

/-- An admission notes the row it inserts. -/
theorem Effect.row_noted {pid : Nat} {a : CandidateAdmission} {w w' : World}
    (h : Effect pid w (.commit (.admitExecutionCandidate a)) w') (had : Db.Admitted a w.db w'.db) :
    w'.ghost.executionRows = ((a.proposalId, a.attempt), w.db.nextId) :: w.ghost.executionRows := by
  have hid := had.inserts.nextId
  cases h with
  | admitted => rfl
  | idle | rolledBack => simp at hid
  | renewed h =>
    obtain ⟨_, _, _, _, heq⟩ := h.renews
    simp [heq, Db.updateExecution] at hid

/-! ## The invariant -/

/-- The rows noted for the attempt are at its nonce, and satisfy `ends`. -/
def World.OwnRow (w : World) (e : ExecutionRecord) (evidence : SubmissionEvidence)
    (ends : DeltaStatus → Prop) : Prop :=
  (∃ id, (e.key, id) ∈ w.ghost.executionRows) ∧
    ∀ id, (e.key, id) ∈ w.ghost.executionRows → ∃ r ∈ w.db.deltas, r.id = id ∧
      r.delta.nonce = evidence.candidateNonce ∧ ends r.delta.status

/-- What holds of every attempt past its boundary: it leads to a state, its row
is noted under it, and is its own until the attempt has an outcome. -/
structure CommitInv (net : Network) (w : World) : Prop where
  attempts : w.db.AttemptInv
  chain : w.chain.Sound net
  stored : ∀ {s}, w.db.state = some s → s.commitment ∈ w.chain.history
  noted : ∀ {k id}, (k, id) ∈ w.ghost.executionRows →
    ∃ e ∈ w.db.executions, e.key = k ∧ e.evidence ≠ none
  expected : ∀ {e evidence}, e ∈ w.db.executions → e.evidence = some evidence →
    ∃ s, net.IsState s evidence.expectedCommitment
  active : ∀ {e evidence}, e ∈ w.db.executions → e.evidence = some evidence → e.outcome = none →
    w.OwnRow e evidence (fun s => s.isCanonical = true ∨ s.isCandidate = true)
  committed : ∀ {e}, e ∈ w.db.executions → e.outcome = some .committed →
    ∃ evidence, e.evidence = some evidence ∧ evidence.expectedCommitment ∈ w.chain.history ∧
      w.OwnRow e evidence (fun s => s.isCanonical = true)

namespace CommitInv
variable {net : Network} {cfg : Config} {pid : Nat} {op : Op} {w w' : World}

/-- An attempt without an outcome owns the nonce of its evidence. -/
theorem owning (h : CommitInv net w) {e : ExecutionRecord} {evidence : SubmissionEvidence}
    (he : e ∈ w.db.executions) (hev : e.evidence = some evidence) (hout : e.outcome = none) :
    w.db.owningExecution evidence.candidateNonce = some e := by
  have hactive := h.attempts.active_eq he hout
  have hlive := (Db.activeExecution_eq_some hactive).2
  simp [Db.owningExecution, hactive, ExecutionRecord.ownsCandidate, hlive, hev]

/-- Rows noted before a call are noted after it. -/
theorem rows_mono (h : Effect pid w op w') {x : (String × Nat) × Nat}
    (hx : x ∈ w.ghost.executionRows) : x ∈ w'.ghost.executionRows := by
  rcases h.executionRows_cases with heq | ⟨_, _, _, heq⟩
  · exact heq ▸ hx
  · exact heq ▸ .tail _ hx

/-- A call notes rows for an attempt without evidence only. -/
theorem rows_of (hi : CommitInv net w) (h : Effect pid w op w') {e : ExecutionRecord} {id : Nat}
    (he : e ∈ w.db.executions) (hev : e.evidence ≠ none)
    (hid : (e.key, id) ∈ w'.ghost.executionRows) : (e.key, id) ∈ w.ghost.executionRows := by
  rcases h.executionRows_cases with heq | ⟨a, _, had, heq⟩
  · exact heq ▸ hid
  · rw [heq] at hid
    rcases List.mem_cons.mp hid with hnew | hid
    · obtain ⟨active, ha, hnone, hpid, hatt⟩ := had.active
      have hsame : e = active := hi.attempts.unique he (Db.activeExecution_eq_some ha).1
        ((Prod.mk.inj hnew).1.trans (Prod.ext hpid.symm hatt.symm))
      exact absurd (hsame ▸ hnone) hev
    · exact hid

/-- What happens to the noted rows of an attempt follows from what happens to
each of them. -/
theorem OwnRow.of_effect (hi : CommitInv net w) (h : Effect pid w op w') {e e' : ExecutionRecord}
    {evidence : SubmissionEvidence} {ends ends' : DeltaStatus → Prop} (he : e ∈ w.db.executions)
    (hev : e.evidence = some evidence) (hkey : e'.key = e.key) (ho : w.OwnRow e evidence ends)
    (hrow : ∀ r ∈ w.db.deltas, r.delta.nonce = evidence.candidateNonce → ends r.delta.status →
      ∃ r' ∈ w'.db.deltas, r'.id = r.id ∧ r'.delta.nonce = r.delta.nonce ∧ ends' r'.delta.status) :
    w'.OwnRow e' evidence ends' := by
  obtain ⟨⟨id, hid⟩, hall⟩ := ho
  refine ⟨⟨id, hkey ▸ rows_mono h hid⟩, fun id' hid' => ?_⟩
  rw [hkey] at hid'
  obtain ⟨r, hr, hrid, hn, hs⟩ := hall id' (hi.rows_of h he (by rw [hev]; simp) hid')
  obtain ⟨r', hr', hid₂, hn', hs'⟩ := hrow r hr hn hs
  exact ⟨r', hr', hid₂.trans hrid, hn'.trans hn, hs'⟩

/-- Noted canonical rows stay. -/
theorem canonical_rows (hi : CommitInv net w) (h : Effect pid w op w') (hfits : op.Fits net cfg)
    {e e' : ExecutionRecord} {evidence : SubmissionEvidence} (he : e ∈ w.db.executions)
    (hev : e.evidence = some evidence) (hkey : e'.key = e.key)
    (ho : w.OwnRow e evidence (fun s => s.isCanonical = true)) :
    w'.OwnRow e' evidence (fun s => s.isCanonical = true) :=
  OwnRow.of_effect hi h he hev hkey ho fun r hr _ hs =>
    ⟨r, canonical_kept h hfits hr hs, rfl, rfl, hs⟩

/-- The rows of an active attempt stay its own, unless a call resolves it. -/
theorem active_rows (hi : CommitInv net w) (h : Effect pid w op w') (hfits : op.Fits net cfg)
    {e e' : ExecutionRecord} {evidence : SubmissionEvidence} (he : e ∈ w.db.executions)
    (hev : e.evidence = some evidence) (hout : e.outcome = none) (hkey : e'.key = e.key)
    (hresolved : ∀ resolution crossed, op = .commit (.resolveExecution resolution crossed) →
      ¬w.db.Resolved resolution crossed w'.db) :
    w'.OwnRow e' evidence (fun s => s.isCanonical = true ∨ s.isCandidate = true) := by
  refine OwnRow.of_effect hi h he hev hkey (hi.active he hev hout) fun r hr hn hs => ?_
  rcases hs with hs | hs
  · exact ⟨r, canonical_kept h hfits hr hs, rfl, rfl, .inl hs⟩
  · refine owned_kept h hfits hr hs ?_ hresolved
    rw [hn, hi.owning he hev hout]
    simp

/-- The row an admission inserts is the attempt's only one. -/
theorem admitted_row {a : CandidateAdmission} (hi : CommitInv net w)
    (h : Effect pid w (.commit (.admitExecutionCandidate a)) w')
    (hfits : Op.Fits net cfg (.commit (.admitExecutionCandidate a)))
    (had : Db.Admitted a w.db w'.db) {e : ExecutionRecord} (he : e ∈ w.db.executions)
    (hkey : e.key = (a.proposalId, a.attempt)) (hnone : e.evidence = none) :
    w'.OwnRow (e.admitWith a.evidence) a.evidence
      (fun s => s.isCanonical = true ∨ s.isCandidate = true) := by
  have hrows := h.row_noted had
  have hkey' : (e.admitWith a.evidence).key = (a.proposalId, a.attempt) := hkey
  refine ⟨⟨w.db.nextId, by rw [hrows, hkey']; exact List.mem_cons_self⟩, fun id hid => ?_⟩
  rw [hrows, hkey'] at hid
  rcases List.mem_cons.mp hid with hnew | hold
  · refine ⟨⟨w.db.nextId, a.delta⟩, had.inserts.mem.mpr (.inl rfl), (Prod.mk.inj hnew).2.symm,
      had.describes.1.symm, .inr ?_⟩
    obtain ⟨t, ht⟩ := hfits.2.1.1
    rw [ht]
    rfl
  · -- an attempt with a noted row has its evidence already
    obtain ⟨e₂, he₂, hkey₂, hev₂⟩ := hi.noted hold
    rw [hi.attempts.unique he₂ he (hkey₂.trans hkey.symm)] at hev₂
    exact absurd hnone hev₂

/-- A commitment of the history that an attempt expects, up to case, is the one
it expects. -/
theorem expected_mem (hi : CommitInv net w) (law : net.Coherent) {e : ExecutionRecord}
    {evidence : SubmissionEvidence} (he : e ∈ w.db.executions) (hev : e.evidence = some evidence)
    {c : Commitment} (hc : c ∈ w.chain.history)
    (hsame : eqIgnoreAsciiCase evidence.expectedCommitment c = true) :
    evidence.expectedCommitment ∈ w.chain.history := by
  obtain ⟨s, hs⟩ := hi.expected he hev
  obtain ⟨s', hs'⟩ := hi.chain.states hc
  rw [law.eq_of_ignoreCase hs hs' hsame]
  exact hc

/-- A call that settles an attempt as committed finds its row canonical and its
commitment on chain. -/
theorem of_touch (hi : CommitInv net w) (law : net.Coherent) (h : Effect pid w op w')
    (hfits : op.Fits net cfg)
    (hstored : ∀ {s}, w'.db.state = some s → s.commitment ∈ w.chain.history) {e : ExecutionRecord} {f : ExecutionRecord → ExecutionRecord} (he : e ∈ w.db.executions)
    (hout : e.outcome = none) (ht : Touch w.db w'.db op e f)
    (hcommitted : (f e).outcome = some .committed) :
    ∃ evidence, (f e).evidence = some evidence ∧
      evidence.expectedCommitment ∈ w.chain.history ∧
      w'.OwnRow (f e) evidence (fun s => s.isCanonical = true) := by
  cases ht with
  | renewed keeps =>
    rw [(keeps e).2.1, hout] at hcommitted
    cases hcommitted
  | admitted => simp [ExecutionRecord.admitWith, hout] at hcommitted
  | failed => simp [ExecutionRecord.settleAs] at hcommitted
  | @committed p evidence hcall hprom hev hn hreached =>
    subst hcall
    refine ⟨evidence, hev, hi.expected_mem law he hev (hstored hprom.state) hreached, ?_⟩
    refine OwnRow.of_effect hi h he hev rfl (hi.active he hev hout) fun r hr hrn hs => ?_
    have hparked : r.delta.status.isParked = false := by
      cases hstatus : r.delta.status <;>
        simp_all [DeltaStatus.isParked, DeltaStatus.isCanonical, DeltaStatus.isCandidate,
          DeltaStatus.isRetained, DeltaStatus.isClientAbandoned]
    exact promoted_canonical hprom hfits hr (hrn.trans hn) hparked
  | @settled now evidence row state hev hat hcan hstate hreached =>
    have hlower : eqIgnoreAsciiCase evidence.expectedCommitment state.commitment = true := by
      simp only [eqIgnoreAsciiCase, beq_iff_eq] at hreached ⊢
      exact hreached.symm
    refine ⟨evidence, hev, hi.expected_mem law he hev (hi.stored hstate) hlower, ?_⟩
    refine OwnRow.of_effect hi h he hev rfl (hi.active he hev hout) fun r hr hrn _ => ?_
    -- the row at the attempt's nonce is the one that was found canonical
    obtain ⟨hrow, hrown⟩ := Db.rowAt_eq_some.mp hat
    have hsame : r = row := Db.eq_of_nonce hr hrow (hrn.trans hrown.symm)
    subst hsame
    exact ⟨r, canonical_kept h hfits hr hcan, rfl, rfl, hcan⟩

/-- Every call of a guarded run keeps the invariant. -/
theorem of_effect (law : net.Coherent) (hi : CommitInv net w) (h : Effect pid w op w')
    (hfits : op.Fits net cfg) (hguard : w'.storesOnChain = true) : CommitInv net w' := by
  have hchain := h.chain_eq
  have hstored : ∀ {s}, w'.db.state = some s → s.commitment ∈ w.chain.history := by
    intro s hs
    rw [← hchain]
    simpa [World.storesOnChain, hs] using hguard
  refine ⟨hi.attempts.of_step (h.attempts hi.attempts), hchain ▸ hi.chain,
    fun hs => hchain ▸ hstored hs, fun hid => ?_, fun he' hev' => ?_, fun he' hev' hout' => ?_, fun he' hcommitted => ?_⟩
  · have hold : ∀ {k id}, (k, id) ∈ w.ghost.executionRows →
        ∃ e ∈ w'.db.executions, e.key = k ∧ e.evidence ≠ none := by
      intro k id hid
      obtain ⟨e, he, hkey, hev⟩ := hi.noted hid
      obtain ⟨e', he', hkey', hev'⟩ := h.attempt_to hi.attempts he
      exact ⟨e', he', hkey'.trans hkey, by rw [hev' hev]; exact hev⟩
    rcases h.executionRows_cases with heq | ⟨a, _, had, heq⟩
    · exact hold (heq ▸ hid)
    · rw [heq] at hid
      rcases List.mem_cons.mp hid with hnew | hid
      · obtain ⟨active, ha, _, hpid, hatt⟩ := had.active
        refine ⟨active.admitWith a.evidence, ?_, ?_, by simp [ExecutionRecord.admitWith]⟩
        · rw [had.executions, ← hpid, ← hatt,
            hi.attempts.mem_update (Db.activeExecution_eq_some ha).1]
          exact .inl rfl
        · rw [(Prod.mk.inj hnew).1]
          exact Prod.ext hpid hatt
      · exact hold hid
  · rcases h.attempt_back hi.attempts he' with he | ⟨hnone, _⟩ | ⟨e, f, he, hout, ht, rfl⟩
    · exact hi.expected he hev'
    · rw [hnone] at hev'
      cases hev'
    · cases ht with
      | renewed keeps => exact hi.expected he ((keeps e).1 ▸ hev')
      | admitted hcall =>
        subst hcall
        cases hev'
        obtain ⟨_, ⟨_, new, hnew, hleads⟩, hnew'⟩ := hfits
        rw [hnew] at hnew'
        cases hnew'
        exact law.step_isState hleads.step
      | committed | settled | failed => exact hi.expected he hev'
  · have hunresolved : ∀ resolution crossed, op = .commit (.resolveExecution resolution crossed) →
        ¬w.db.Resolved resolution crossed w'.db :=
      fun _ _ _ hres => hres.settles hi.attempts he' hout'
    rcases h.attempt_back hi.attempts he' with he | ⟨hnone, _⟩ | ⟨e, f, he, hout, ht, rfl⟩
    · exact hi.active_rows h hfits he hev' hout' rfl hunresolved
    · rw [hnone] at hev'
      cases hev'
    · have hkey := ht.key_eq
      cases ht with
      | renewed keeps =>
        exact hi.active_rows h hfits he ((keeps e).1 ▸ hev') hout hkey hunresolved
      | admitted hcall had hattempt hnone =>
        subst hcall
        cases hev'
        exact hi.admitted_row h hfits had he hattempt hnone
      | committed | settled | failed => cases hout'
  · rcases h.attempt_back hi.attempts he' with he | ⟨_, hnone⟩ | ⟨e, f, he, hout, ht, rfl⟩
    · obtain ⟨evidence, hev, hmem, hrow⟩ := hi.committed he hcommitted
      exact ⟨evidence, hev, hchain ▸ hmem, hi.canonical_rows h hfits he hev rfl hrow⟩
    · rw [hnone] at hcommitted
      cases hcommitted
    · rw [hchain]
      exact hi.of_touch law h hfits hstored he hout ht hcommitted

theorem of_fresh (h : w.Fresh net) : CommitInv net w where
  attempts := by constructor <;> simp [h.executions]
  chain := .of_fresh h
  stored := fun hs => by
    rw [(h.state hs).2]
    simp [Chain.history]
  noted := fun hid => by
    rw [h.ghost] at hid
    cases hid
  expected := fun he => by simp [h.executions] at he
  active := fun he => by simp [h.executions] at he
  committed := fun he => by simp [h.executions] at he

theorem of_act (law : net.Coherent) (hi : CommitInv net w) (h : ActEffect net w w') :
    CommitInv net w' := by
  have hmem : ∀ {x}, x ∈ w.chain.history → x ∈ w'.chain.history := Chain.history_mono h
  have hrows : w'.ghost.executionRows = w.ghost.executionRows := by cases h <;> rfl
  have hown : ∀ {e evidence ends}, w.OwnRow e evidence ends → w'.OwnRow e evidence ends := by
    intro e evidence ends ho
    simpa only [World.OwnRow, hrows, h.db] using ho
  refine ⟨h.db ▸ hi.attempts, hi.chain.of_act law h, fun hs => hmem (hi.stored (h.db ▸ hs)),
    fun hid => by rw [h.db]; exact hi.noted (hrows ▸ hid), fun he => hi.expected (h.db ▸ he),
    fun he hev hout => hown (hi.active (h.db ▸ he) hev hout), fun he hout => ?_⟩
  obtain ⟨evidence, hev, hm, hrow⟩ := hi.committed (h.db ▸ he) hout
  exact ⟨evidence, hev, hmem hm, hown hrow⟩

end CommitInv

/-- In every run in which stored commitments are on chain, an attempt recorded
as committed has its commitment in the account's history, and the row its own
admission inserted is canonical. -/
theorem committed_means_landed (net : Network) (law : net.Coherent) (cfg : Config) (w₀ : World)
    (hfresh : w₀.Fresh net) (c : SystemConf) (h : Reachable net cfg storesOnChain w₀ c)
    (e : ExecutionRecord) (he : e ∈ c.world.db.executions)
    (hcommitted : e.outcome = some .committed) :
    ∃ evidence, e.evidence = some evidence ∧
      evidence.expectedCommitment ∈ c.world.chain.history ∧
      c.world.OwnRow e evidence (fun s => s.isCanonical = true) := by
  have hinv : CommitInv net c.world :=
    Reach.induct (K := fun _ op _ => op.Fits net cfg)
      (fun hr hp => hr.calls (fun req _ _ => body_calls net cfg req) hp) (CommitInv.of_fresh hfresh)
      (fun hfits hguard hx hi => hi.of_effect law (exec_effect hx).2 hfits (RunGuard.calls_ok hguard hx))
      (fun _ hact hi => hi.of_act law (act_effect hact)) h
  exact hinv.committed he hcommitted

/-- An execution that is sent, included and promoted. -/
theorem committed_means_landed_promoted :
    ∃ c, Reachable (.letters 0) Demo.config storesOnChain (Demo.world 0) c ∧
      ∃ e ∈ c.world.db.executions, e.outcome = some .committed ∧
        ∃ evidence, e.evidence = some evidence ∧
          evidence.expectedCommitment ∈ c.world.chain.history ∧
          c.world.OwnRow e evidence (fun s => s.isCanonical = true) := by
  obtain ⟨c, hc, htest⟩ := Demo.reachable_after 0 storesOnChain (Demo.world 0)
    (Demo.executing 64 50 ++ [.env (.mine [⟨"s", "t", some ("t", 1)⟩])] ++ Demo.acquires 2 "a" ++
      .spawn 3 (.fullPass (Demo.fence "a" 0)) :: Demo.calls 3 13 2)
    (fun c : SystemConf => c.world.db.executions.any (fun e => decide (e.outcome = some .committed)))
    (by decide +kernel)
  obtain ⟨e, he, hcommitted⟩ := List.any_eq_true.mp htest
  have hout : e.outcome = some .committed := of_decide_eq_true hcommitted
  exact ⟨c, hc, e, he, hout, committed_means_landed _ (Network.lettersLawful 0).toCoherent Demo.config _
    (Demo.fresh_world 0) c hc e he hout⟩

end Guardian
