import Guardian.Safety.Attempts
import Guardian.Safety.RollBack

/- A client delta that was acknowledged stays recorded until the stored state
   has caught up with it or its retention is over: queued, then parked, then
   archived under a resubmission, and back. Every move of a row is one of
   `Effect.row_to`; what is left to show is that none of them drops a record
   that is still owed.

   Two of them can, because a pass writes by nonce and status kind. A promotion
   overwrites the post commitment of the row it finds, and a discard of a
   retained row deletes the row it finds. Where that is another row than the
   one the pass read, the delta in it is lost: `landed_step_overwritten`. -/
namespace Guardian

open Interleaving Relation

/-- The delta is recorded with its payload, base and post commitment: as a
client's queued candidate, as a retained or client-abandoned row, or archived. -/
inductive World.Records (w : World) (d : DeltaObject) : Prop where
  | queued {r : DeltaRow} (mem : r ∈ w.db.deltas) (same : SameDelta r.delta d)
      (candidate : r.delta.status.isCandidate = true)
      (unowned : w.db.owningExecution d.nonce = none)
  | parked {r : DeltaRow} (mem : r ∈ w.db.deltas) (same : SameDelta r.delta d)
      (parked : r.delta.status.isParked = true)
  | archived {s : SupersededDelta} (mem : s ∈ w.db.superseded) (same : SameDelta s.delta d)

/-- The delta is at a position of the chain that the stored state is before. -/
def World.Owes (w : World) (d : DeltaObject) : Prop :=
  ∃ new s, d.newCommitment = some new ∧ w.db.state = some s ∧ w.chain.Before s.commitment new

/-- The stored state is the one the delta leads to, or descends from it. -/
def World.CaughtUp (net : Network) (w : World) (d : DeltaObject) : Prop :=
  ∃ new s, d.newCommitment = some new ∧ w.db.state = some s ∧
    ReflTransGen net.Step new s.commitment

/-- A record of the delta was dropped since `w₁`, after its retention. -/
def World.ExpiredSince (cfg : Config) (w₁ w : World) (d : DeltaObject) : Prop :=
  ∃ dropped, w.ghost.dropped = dropped ++ w₁.ghost.dropped ∧
    ∃ x ∈ dropped, SameDelta x.1 d ∧ x.2 + cfg.retainedTtlSeconds ≤ w.clock

/-- A promotion finds the post commitment it verified, and a discard the
retained row it read. -/
def Op.findsItsRow (w : World) : Op → Bool
  | .commit (.promoteCandidate p) => (w.db.rowAt p.delta.nonce).all (fun r =>
      decide (p.source ≠ .superseded → p.source.matches r.delta.status = true →
        r.delta.newCommitment = p.delta.newCommitment))
  | .commit (.discardCandidate nonce .retained snapshot) => (w.db.rowAt nonce).all (fun r =>
      decide (r.delta.status.kind = .retained → r.delta = snapshot))
  | _ => true

/-- Runs without a `/configure`. -/
def clientRuns : RunGuard where
  spawn := fun req _ => !req.isConfigure
  call := fun _ _ _ _ => true
  act := fun _ _ => true

/-- Such runs in which every pass finds the row it read. -/
def findingRuns : RunGuard where
  spawn := fun req _ => !req.isConfigure
  call := fun _ op _ w => op.findsItsRow w
  act := fun _ _ => true

section Moves
variable {net : Network} {cfg : Config} {pid : Nat} {op : Op} {w w' : World} {d : DeltaObject}

/-- An archived row stays, is pruned, or is what a promotion restores. -/
theorem Effect.archived_to (h : Effect pid w op w') {s : SupersededDelta}
    (hs : s ∈ w.db.superseded) : s ∈ w'.db.superseded ∨
      (∃ before, op = .write (.pruneSupersededDeltas before) ∧ s.supersededAt < before ∧
        w'.ghost.dropped = w.db.prunedBefore before ++ w.ghost.dropped) ∨
      ∃ p, op = .commit (.promoteCandidate p) ∧ Db.Promoted p w.db w'.db ∧
        Db.restoreSuperseded.isArchived p.delta s = true := by
  cases h with
  | submitted h => exact .inl (h.archives.mpr (.inl hs))
  | admitted h => exact .inl (h.archives.mpr (.inl hs))
  | abandonRecorded h => exact .inl (h.rewrites.superseded ▸ hs)
  | updated h => exact .inl (h.rewrites.superseded ▸ hs)
  | discarded h => exact .inl (h.deletes.superseded ▸ hs)
  | plain h => exact .inl (h.superseded ▸ hs)
  | authSet =>
    refine .inl ?_
    simp only [Db.setMetadataRow]
    split <;> exact hs
  | flagCleared =>
    refine .inl ?_
    rw [Db.clearPendingFlagIfNone_eq]
    exact hs
  | @pruned before =>
    by_cases hkept : before ≤ s.supersededAt
    · exact .inl (List.mem_filter.mpr ⟨hs, decide_eq_true hkept⟩)
    · exact .inr (.inl ⟨before, rfl, not_le.mp hkept, rfl⟩)
  | promoted h =>
    rcases h.row with ⟨row, _, _, _, hrw⟩ | ⟨_, hres⟩
    · exact .inl (hrw.superseded ▸ hs)
    · cases harch : Db.restoreSuperseded.isArchived _ s with
      | true => exact .inr (.inr ⟨_, rfl, h, harch⟩)
      | false => exact .inl (hres.mem_superseded.mpr (.inl ⟨hs, harch⟩))
  | reserved h => exact .inl (by rw [h.eq]; exact hs)
  | renewed h =>
    obtain ⟨_, _, _, _, heq⟩ := h.renews
    exact .inl (by rw [heq]; exact hs)
  | settled h =>
    obtain ⟨_, _, _, _, _, _, _, _, _, _, _, heq⟩ := h.settles
    exact .inl (by rw [heq]; exact hs)
  | resolved h => exact .inl (h.superseded ▸ hs)
  | _ => exact .inl hs

/-- While a candidate is queued, no execution comes to own its nonce. -/
theorem Effect.unowned_kept (hi : w.db.AttemptInv) (h : Effect pid w op w') {r : DeltaRow}
    (hr : r ∈ w.db.deltas) (hc : r.delta.status.isCandidate = true) {nonce : Nonce}
    (hn : w.db.owningExecution nonce = none) : w'.db.owningExecution nonce = none := by
  have hfree : ∀ {e}, w.db.activeExecution = some e →
      e.evidence.any (·.candidateNonce == nonce) = false := by
    intro e ha
    have hactive := (Db.activeExecution_eq_some ha).2
    simpa [Db.owningExecution, ha, ExecutionRecord.ownsCandidate, hactive] using hn
  cases ha' : w'.db.activeExecution with
  | none => simp [Db.owningExecution, ha']
  | some e' =>
    obtain ⟨hmem', hactive'⟩ := Db.activeExecution_eq_some ha'
    suffices hev : e'.evidence.any (·.candidateNonce == nonce) = false by
      simp [Db.owningExecution, ha', ExecutionRecord.ownsCandidate, hev]
    rcases h.attempt_back hi hmem' with hold | ⟨hev, _⟩ | ⟨e, f, he, hout, ht, rfl⟩
    · -- an attempt that is active now and was there before was active then
      cases hout : e'.outcome with
      | none => exact hfree (hi.active_eq hold hout)
      | some _ =>
        rw [hi.active_iff hold, hout] at hactive'
        cases hactive'
    · rw [hev]
      rfl
    · cases ht with
      | renewed keeps =>
        rw [(keeps e).1]
        exact hfree (hi.active_eq he hout)
      | admitted _ had =>
        rw [Db.hasCandidate_eq_false.mp had.idle r hr] at hc
        cases hc
      | committed | settled | failed => cases hactive'

/-- A row a promotion flips, where it finds the post commitment it verified,
leads to the state it stores. -/
theorem caughtUp_of_flip {p : CandidatePromotion} {r : DeltaRow}
    (hfits : Op.Fits net cfg (.commit (.promoteCandidate p)))
    (hfinds : Op.findsItsRow w (.commit (.promoteCandidate p)) = true)
    (hp : Db.Promoted p w.db w'.db) (hr : r ∈ w.db.deltas) (hn : r.delta.nonce = p.delta.nonce)
    (hm : p.source.matches r.delta.status = true) (hsource : p.source ≠ .superseded)
    (hsame : SameDelta r.delta d) : w'.CaughtUp net d := by
  have hnew : r.delta.newCommitment = p.delta.newCommitment := by
    rw [Op.findsItsRow, Db.rowAt_eq_some.mpr ⟨hr, hn⟩] at hfinds
    exact of_decide_eq_true hfinds hsource hm
  refine ⟨p.state.commitment, p.state.asStored, ?_, hp.state, .refl⟩
  rw [← hsame.newCommitment, hnew]
  exact hfits.canonical.2

/-- What a resubmission or an admission supersedes is archived. -/
theorem records_of_superseded {delta : DeltaObject} {r : DeltaRow} (hon : 0 < cfg.retainedTtlSeconds)
    (hfits : op.Fits net cfg) (hq : Queued w.db w'.db op delta) (hr : r ∈ w.db.deltas)
    (hn : r.delta.nonce = delta.nonce) (hsame : SameDelta r.delta d) : w'.Records d := by
  have harchives : cfg.archivesSuperseded = true := decide_eq_true hon
  cases hq with
  | submitted h =>
    have hpolicy := hfits.1
    refine .archived (h.archives.mpr (.inr ⟨?_, r, hr, hn, rfl⟩)) hsame
    rw [hpolicy]
    exact harchives
  | admitted h =>
    refine .archived (h.archives.mpr (.inr ⟨?_, r, hr, hn, rfl⟩)) hsame
    rw [hfits.1]
    exact harchives

/-- The status a pass writes leaves a row a record. -/
theorem records_of_update {status : DeltaStatus} {snapshot : DeltaObject} {r : DeltaRow}
    {at? : Option Time}
    (hsettles : Settles snapshot status) (hsnapshot : snapshot.status.isCandidate = true)
    (hmem : r.rewrite (fun _ => status.withAbandonRequestPreservedFrom at?) id ∈ w'.db.deltas)
    (hsame : SameDelta r.delta d) (hn : w'.db.owningExecution d.nonce = none) : w'.Records d := by
  have hsame' := (rewrite_same r
    (fun _ => status.withAbandonRequestPreservedFrom at?)).trans hsame
  rcases hsettles with hret | habandoned | hcand
  · refine .parked hmem hsame' ?_
    cases status <;> first | rfl | cases hret
  · refine .parked hmem hsame' ?_
    cases status <;> first | exact Bool.or_eq_true_iff.mpr (.inr habandoned) | cases habandoned
  · refine .queued hmem hsame' ?_ hn
    simp [DeltaRow.rewrite, hcand, hsnapshot]

/-- What was dropped is noted in order. -/
theorem Effect.dropped_grows (h : Effect pid w op w') :
    ∃ dropped, w'.ghost.dropped = dropped ++ w.ghost.dropped := by
  cases h with
  | pruned => exact ⟨_, rfl⟩
  | @discarded nonce kind snapshot row _ _ =>
    by_cases hk : kind = .retained
    · exact ⟨[(row.delta, row.delta.status.timestamp)], by simp [Ghost.noteDiscard, hk]⟩
    · exact ⟨[], by simp [Ghost.noteDiscard, Ghost.notePassWrite, hk]⟩
  | _ => exact ⟨[], rfl⟩

theorem ActEffect.dropped_eq (h : ActEffect net w w') : w'.ghost.dropped = w.ghost.dropped := by
  cases h <;> rfl

/-- A discarded retained row is noted with the instant it was parked. -/
theorem Effect.dropped_of_discard {nonce : Nonce} {snapshot : DeltaObject} {row : DeltaRow}
    (h : Effect pid w (.commit (.discardCandidate nonce .retained snapshot)) w')
    (hdis : Db.Discarded nonce .retained row w.db w'.db) :
    w'.ghost.dropped = (row.delta, row.delta.status.timestamp) :: w.ghost.dropped := by
  have hrow := hdis.deletes.mem_row
  have hgone : row ∉ w'.db.deltas := fun hmem => (hdis.deletes.mem.mp hmem).2 rfl
  cases h with
  | discarded hdis' =>
    have hone := Db.eq_of_nonce hdis'.deletes.mem_row hrow
      (hdis'.row_nonce.trans hdis.row_nonce.symm)
    rw [hone]
    rfl
  | idle | rolledBack => exact absurd hrow hgone
  | renewed hren =>
    obtain ⟨_, _, _, _, heq⟩ := hren.renews
    simp only [heq] at hgone
    exact absurd hrow hgone

/-- A record of a delta is kept by every call, unless the delta is caught up
with or the record dropped after its retention. -/
theorem Effect.records_kept (hon : 0 < cfg.retainedTtlSeconds) (hi : w.db.AttemptInv)
    (h : Effect pid w op w') (hfits : op.Fits net cfg)
    (hheld : HeldOk cfg pid w op) (hfinds : op.findsItsRow w = true) (hrec : w.Records d) :
    w'.Records d ∨ w'.CaughtUp net d ∨ World.ExpiredSince cfg w w' d := by
  -- what becomes of a row that records the delta, as a candidate or parked
  have hrow : ∀ {r}, r ∈ w.db.deltas → SameDelta r.delta d →
      (r.delta.status.isCandidate = true ∧ w.db.owningExecution d.nonce = none) ∨
        r.delta.status.isParked = true →
      w'.Records d ∨ w'.CaughtUp net d ∨ World.ExpiredSince cfg w w' d := by
    intro r hr hsame hkind
    have hrecords : ∀ {r'}, r' ∈ w'.db.deltas → SameDelta r'.delta d →
        r'.delta.status.isCandidate = r.delta.status.isCandidate →
        r'.delta.status.isParked = r.delta.status.isParked → w'.Records d := by
      intro r' hr' hsame' hc hp
      rcases hkind with ⟨hcand, hn⟩ | hparked
      · exact .queued hr' hsame' (hc.trans hcand) (h.unowned_kept hi hr hcand hn)
      · exact .parked hr' hsame' (hp.trans hparked)
    cases h.row_to hr with
    | kept hmem => exact .inl (hrecords hmem hsame rfl rfl)
    | superseded hq hn => exact .inl (records_of_superseded hon hfits hq hr hn hsame)
    | @abandoned _ _ now _ _ hmem =>
      refine .inl (hrecords hmem ((rewrite_same r _).trans hsame) ?_ ?_)
      · exact DeltaStatus.isCandidate_withAbandonRequested _ _
      · cases hs : r.delta.status <;> simp [DeltaRow.rewrite, hs, DeltaStatus.withAbandonRequested,
          DeltaStatus.isParked, DeltaStatus.isRetained, DeltaStatus.isClientAbandoned]
    | updated hcall hup hmem =>
      subst hcall
      rcases hkind with ⟨hcand, hn⟩ | hparked
      · exact .inl (records_of_update hfits.2 hheld.2 hmem hsame (h.unowned_kept hi hr hcand hn))
      · have hcand := hup.candidate
        cases hs : r.delta.status <;> simp_all [DeltaStatus.isParked, DeltaStatus.isRetained,
          DeltaStatus.isClientAbandoned, DeltaStatus.isCandidate]
    | flipped hcall hp hn hm hsource =>
      subst hcall
      exact .inr (.inl (caughtUp_of_flip hfits hfinds hp hr hn hm hsource hsame))
    | replaced _ _ hres hn =>
      exact .inl (.archived (hres.mem_superseded.mpr (.inr ⟨r, hr, hn, rfl⟩)) hsame)
    | @discarded nonce kind snapshot hcall hdis =>
      subst hcall
      have hret : kind = .retained := by
        rcases hfits.2 with hk | ⟨_, hzero⟩
        · exact hk
        · omega
      subst hret
      have hread : r.delta = snapshot := by
        rw [Op.findsItsRow, Db.rowAt_eq_some.mpr ⟨hr, hdis.row_nonce⟩] at hfinds
        exact of_decide_eq_true hfinds hdis.row_kind
      obtain ⟨_, hexpired⟩ := hheld.2 rfl
      refine .inr (.inr ⟨[(r.delta, r.delta.status.timestamp)], ?_, _, List.mem_cons_self, hsame, ?_⟩)
      · exact h.dropped_of_discard hdis
      · rw [h.clock_eq, hread]
        exact hexpired hon
    | @resolved _ _ e _ _ he hout howns hcand =>
      rcases hkind with ⟨_, hn⟩ | hparked
      · have hactive := hi.active_eq he hout
        have hisActive := (Db.activeExecution_eq_some hactive).2
        rw [hsame.nonce] at howns
        simp [Db.owningExecution, hactive, ExecutionRecord.ownsCandidate, hisActive, howns] at hn
      · cases hs : r.delta.status <;> simp_all [DeltaStatus.isParked, DeltaStatus.isRetained,
          DeltaStatus.isClientAbandoned, DeltaStatus.isCandidate]
  cases hrec with
  | queued hr hsame hc hn => exact hrow hr hsame (.inl ⟨hc, hn⟩)
  | parked hr hsame hp => exact hrow hr hsame (.inr hp)
  | @archived s hs hsame =>
    rcases h.archived_to hs with hkept | ⟨before, rfl, hold, hdropped⟩ | ⟨p, rfl, hp, harch⟩
    · exact .inl (.archived hkept hsame)
    · refine .inr (.inr ⟨_, hdropped, (s.delta, s.supersededAt), ?_, hsame, ?_⟩)
      · refine List.mem_map.mpr ⟨s, List.mem_filter.mpr ⟨hs, ?_⟩, rfl⟩
        simpa using hold
      · have hcut : before ≤ w.clock - cfg.retainedTtlSeconds := hheld
        rw [h.clock_eq]
        exact (Nat.lt_sub_iff_add_lt.mp (hold.trans_le hcut)).le
    · refine .inr (.inl ⟨p.state.commitment, p.state.asStored, ?_, hp.state, .refl⟩)
      have hnew : s.delta.newCommitment = p.delta.newCommitment := by
        simp only [Db.restoreSuperseded.isArchived, Bool.and_eq_true, beq_iff_eq] at harch
        exact harch.1.2
      rw [← hsame.newCommitment, hnew]
      exact hfits.canonical.2

/-- What was caught up with stays so, as long as only promotions move the stored
state. -/
theorem World.CaughtUp.of_effect (h : Effect pid w op w') (hok : LandingOk net w op)
    (hop : op.Promotes) (hc : w.CaughtUp net d) : w'.CaughtUp net d := by
  obtain ⟨new, s, hnew, hs, hleads⟩ := hc
  rcases h.state_cases with ⟨heq, _⟩ | ⟨state, hwrite, heq, _⟩
  · exact ⟨new, s, hnew, heq.trans hs, hleads⟩
  · refine ⟨new, state.asStored, hnew, heq, hleads.trans ?_⟩
    rw [StateObject.asStored_commitment]
    cases hwrite with
    | submitted | replaced => exact hop.elim
    | promoted hp => exact hp.leads_on hok.2.1 hs

/-- What a delta is from the moment it is recorded. -/
structure Followed (net : Network) (cfg : Config) (d : DeltaObject) (w₁ w : World) : Prop where
  grows : ∃ dropped, w.ghost.dropped = dropped ++ w₁.ghost.dropped
  cases : w.Records d ∨ w.CaughtUp net d ∨ World.ExpiredSince cfg w₁ w d

theorem Followed.of_effect {w₁ : World} (hon : 0 < cfg.retainedTtlSeconds) (hi : w.db.AttemptInv)
    (h : Effect pid w op w') (hfits : op.Fits net cfg)
    (hheld : HeldOk cfg pid w op) (hok : LandingOk net w op) (hop : op.Promotes)
    (hfinds : op.findsItsRow w = true) (hf : Followed net cfg d w₁ w) :
    Followed net cfg d w₁ w' := by
  obtain ⟨older, holder⟩ := hf.grows
  obtain ⟨newer, hnewer⟩ := h.dropped_grows
  have hall : w'.ghost.dropped = newer ++ older ++ w₁.ghost.dropped := by
    rw [hnewer, holder, List.append_assoc]
  refine ⟨⟨_, hall⟩, ?_⟩
  rcases hf.cases with hrec | hc | ⟨dropped, heq, x, hx, hsame, hpast⟩
  · rcases h.records_kept hon hi hfits hheld hfinds hrec with hrec | hc |
      ⟨dropped, heq, x, hx, hsame, hpast⟩
    · exact .inl hrec
    · exact .inr (.inl hc)
    · refine .inr (.inr ⟨dropped ++ older, ?_, x, List.mem_append_left _ hx, hsame, hpast⟩)
      rw [heq, holder, List.append_assoc]
  · exact .inr (.inl (hc.of_effect h hok hop))
  · refine .inr (.inr ⟨newer ++ dropped, ?_, x, List.mem_append_right _ hx, hsame, ?_⟩)
    · rw [hnewer, heq, List.append_assoc]
    · rw [h.clock_eq]
      exact hpast

theorem Followed.of_act {w₁ : World} (h : ActEffect net w w') (hf : Followed net cfg d w₁ w) :
    Followed net cfg d w₁ w' := by
  have hclock : w.clock ≤ w'.clock := by
    cases h with
    | tick seconds => exact Nat.le_add_right _ _
    | crash | mine => exact le_rfl
  refine ⟨h.dropped_eq ▸ hf.grows, ?_⟩
  rcases hf.cases with hrec | ⟨new, s, hnew, hs, hleads⟩ | ⟨dropped, heq, x, hx, hsame, hpast⟩
  · refine .inl ?_
    cases hrec with
    | queued hr hsame hc hn => exact .queued (h.db ▸ hr) hsame hc (h.db ▸ hn)
    | parked hr hsame hp => exact .parked (h.db ▸ hr) hsame hp
    | archived hs hsame => exact .archived (h.db ▸ hs) hsame
  · exact .inr (.inl ⟨new, s, hnew, h.db ▸ hs, hleads⟩)
  · exact .inr (.inr ⟨dropped, h.dropped_eq ▸ heq, x, hx, hsame, hpast.trans hclock⟩)

/-- What a step acknowledges is recorded. -/
theorem records_of_acked (h : Effect pid w op w') (hfits : op.Fits net cfg)
    (hack : w'.ghost.acked = d :: w.ghost.acked) : w'.Records d := by
  have hne : w'.ghost.acked ≠ w.ghost.acked := by
    intro heq
    rw [heq] at hack
    exact List.cons_ne_self _ _ hack.symm
  cases h with
  | @submitted delta _ _ db' hs =>
    obtain rfl : delta = d := (List.cons.inj hack).1
    obtain ⟨⟨t, ht⟩, _⟩ := hfits.2
    refine .queued (hs.inserts.mem.mpr (.inl rfl)) (.refl _) (by rw [ht]; rfl) ?_
    have hinactive : db'.activeExecution = none := by
      rw [Db.activeExecution, hs.executions]
      exact hs.inactive
    simp [Db.owningExecution, hinactive]
  | _ => exact absurd rfl hne

end Moves

/-- What a step of a run acknowledges is recorded, also when a process only
started. -/
theorem Reachable.records_of_acked {net : Network} {cfg : Config} {G : RunGuard} {w₀ : World}
    {c c₁ : SystemConf} {e : Event Request Choice Act} {d : DeltaObject}
    (h : Reachable net cfg G w₀ c) (hs : step (machine net) (body net cfg) G c e = some c₁)
    (hack : c₁.world.ghost.acked = d :: c.world.ghost.acked) : c₁.world.Records d := by
  have hne : c₁.world.ghost.acked ≠ c.world.ghost.acked := by
    intro heq
    rw [heq] at hack
    exact List.cons_ne_self _ _ hack.symm
  obtain ⟨_, _, _, _, rfl⟩ | ⟨pid, ch, req, op, k, r, w, hp, _, hx, rfl⟩ |
    ⟨a, w, _, hact, rfl⟩ := step_cases hs
  · exact absurd rfl hne
  · exact Guardian.records_of_acked (exec_effect hx).2 (Reachable.held h hp).1 hack
  · exact absurd (by cases act_effect hact <;> rfl) hne

/-- In every run without a `/configure` in which every pass finds the row it
read, a delta that was just acknowledged, or is recorded, stays recorded until
its retention is over, as long as it has landed and the stored state is before
it. -/
theorem landed_step_recorded (net : Network) (law : net.Lawful) (one : net.OneLineage)
    (cfg : Config) (hon : 0 < cfg.retainedTtlSeconds) (w₀ : World) (hfresh : w₀.Fresh net)
    (c c₁ c' : SystemConf) (e : Event Request Choice Act)
    (events : List (Event Request Choice Act)) (h : Reachable net cfg findingRuns w₀ c)
    (hs : step (machine net) (body net cfg) findingRuns c e = some c₁)
    (hrun : runEvents (machine net) (body net cfg) findingRuns c₁ events = some c')
    (d : DeltaObject) (hd : c₁.world.ghost.acked = d :: c.world.ghost.acked ∨ c₁.world.Records d)
    (howes : c'.world.Owes d) :
    c'.world.Records d ∨ World.ExpiredSince cfg c₁.world c'.world d := by
  have h₁ : Reachable net cfg findingRuns w₀ c₁ := h.step e hs
  have hrec : c₁.world.Records d := by
    rcases hd with hack | hrec
    · exact h.records_of_acked hs hack
    · exact hrec
  have hfollowed : Followed net cfg d c₁.world c'.world := by
    refine Reach.along (P := Followed net cfg d c₁.world) (fun {_ _ _ op _ _ _ _} hr hp hg hx hi => ?_)
      (fun _ hact hi => hi.of_act (act_effect hact)) h₁ ⟨⟨[], rfl⟩, .inl hrec⟩ hrun
    obtain ⟨hfits, hheld⟩ := Reachable.held hr hp
    have hok := (Reachable.landing law one hfresh hr hp).2.2
    have hop : op.Promotes := by
      refine hr.calls (fun req w hg => body_promotes ?_) hp
      simpa [findingRuns] using hg
    exact hi.of_effect hon (Db.AttemptInv.of_reachable hfresh hr) (exec_effect hx).2 hfits hheld
      hok hop hg
  rcases hfollowed.cases with hrec | hcaught | hexpired
  · exact .inl hrec
  · obtain ⟨new, s, hnew, hst, hbefore⟩ := howes
    obtain ⟨new', s', hnew', hst', hleads⟩ := hcaught
    rw [hnew] at hnew'
    cases hnew'
    rw [hst] at hst'
    cases hst'
    have hreach : Reachable net cfg findingRuns w₀ c' := h₁.runEvents hrun
    exact absurd hbefore
      ((Reachable.landingInv law one hfresh hreach).chain.not_before law one hleads)
  · exact .inr hexpired

/-! ## Runs -/

/-- A delta is acknowledged, and lands after the stored state. -/
def Demo.landsUnpromoted (d : DeltaObject) (stored new : Commitment) (older : List Commitment)
    (G : RunGuard) (rest : List (Event Request Choice Act)) (test : SystemConf → Bool)
    (e : Event Request Choice Act) (c : SystemConf) : Bool :=
  (step (machine (.letters 0)) (body (.letters 0) Demo.config) G c e).any (fun c₁ : SystemConf =>
    decide (c₁.world.ghost.acked = d :: c.world.ghost.acked) &&
      (runEvents (machine (.letters 0)) (body (.letters 0) Demo.config) G c₁ rest).any
        (fun c' : SystemConf => Demo.storesAt stored (new :: stored :: older) c' && test c'))

theorem Demo.owes_of_landsUnpromoted {d : DeltaObject} {stored new : Commitment}
    {older : List Commitment} {G : RunGuard} {rest : List (Event Request Choice Act)}
    {test : SystemConf → Bool} {e : Event Request Choice Act} {c : SystemConf}
    (hnew : d.newCommitment = some new)
    (h : Demo.landsUnpromoted d stored new older G rest test e c = true) :
    ∃ c₁ c', step (machine (.letters 0)) (body (.letters 0) Demo.config) G c e = some c₁ ∧
      runEvents (machine (.letters 0)) (body (.letters 0) Demo.config) G c₁ rest = some c' ∧
      c₁.world.ghost.acked = d :: c.world.ghost.acked ∧ c'.world.Owes d ∧ test c' = true := by
  obtain ⟨c₁, hc₁, hrest⟩ := (Option.any_eq_true ..).mp h
  obtain ⟨hack, hrest⟩ := Bool.and_eq_true_iff.mp hrest
  obtain ⟨c', hc', hlast⟩ := (Option.any_eq_true ..).mp hrest
  obtain ⟨hstores, htest⟩ := Bool.and_eq_true_iff.mp hlast
  have hstores := of_decide_eq_true hstores
  obtain ⟨s, hs, hst⟩ := Option.map_eq_some_iff.mp hstores.1
  refine ⟨c₁, c', hc₁, hc', of_decide_eq_true hack, ⟨new, s, hnew, hs, [], [], older, ?_⟩, htest⟩
  rw [hstores.2, hst]
  rfl

/-- A delta as its push queues it at time 100. -/
def Demo.candidate (nonce : Nonce) (base letter : String) : DeltaObject :=
  ⟨nonce, base, some (base ++ letter), letter, .newCandidate 100⟩

/-- A push that has landed and waits for its promotion. -/
theorem landed_step_recorded_pushed :
    ∃ (c c₁ c' : SystemConf) (d : DeltaObject),
      Reachable (.letters 0) Demo.config findingRuns (Demo.world 0) c ∧
      c₁.world.ghost.acked = d :: c.world.ghost.acked ∧ c'.world.Owes d ∧
      (c'.world.Records d ∨ World.ExpiredSince Demo.config c₁.world c'.world d) := by
  obtain ⟨c, hc, htest⟩ := Demo.reachable_after 0 findingRuns (Demo.world 0)
    (.spawn 0 (.push (Demo.delta 1 "s" "t")) :: Demo.calls 0 7 1)
    (Demo.landsUnpromoted (Demo.candidate 1 "s" "t") "s" "st" [] findingRuns
      [.env (.mine [⟨"s", "t", none⟩])] (fun _ => true) (.run 0 { block := 1 })) (by decide +kernel)
  obtain ⟨c₁, c', hs, hrun, hack, howes, _⟩ := Demo.owes_of_landsUnpromoted rfl htest
  exact ⟨c, c₁, c', _, hc, hack, howes, landed_step_recorded _ (Network.lettersLawful 0)
    Network.letters_oneLineage Demo.config (by decide) _ (Demo.fresh_world 0) c c₁ c' _ _ hc hs
    hrun _ (.inl hack) howes⟩

/-- A pass reads the candidate of an execution at nonce 2; the node rejects its
transaction and the candidate is deleted; a client pushes the same delta at
nonce 1 and another behind it at nonce 2, up to its submission. -/
def Demo.overtaken : List (Event Request Choice Act) :=
  .spawn 0 (.submitProposal ⟨"t", Demo.delta 2 "s" "t"⟩) :: Demo.calls 0 2 1 ++
    .spawn 1 (.execute (Demo.execution 50)) :: Demo.calls 1 63 1 ++ Demo.acquires 2 "a" ++
    .spawn 3 (.fullPass (Demo.fence "a" 0)) :: Demo.calls 3 5 1 ++
    .run 1 { submit := .rejected } :: Demo.calls 1 3 1 ++
    .spawn 4 (.push (Demo.delta 1 "s" "t")) :: Demo.calls 4 9 1 ++
    .spawn 5 (.push (Demo.delta 2 "st" "u")) :: Demo.calls 5 7 1

/-- The first delta lands, the pass promotes what it read over the second one's
row, and the second one lands. -/
theorem landed_step_overwritten :
    ¬∀ c c₁ c' e events d, Reachable (.letters 0) Demo.config clientRuns (Demo.world 0) c →
      step (machine (.letters 0)) (body (.letters 0) Demo.config) clientRuns c e = some c₁ →
      runEvents (machine (.letters 0)) (body (.letters 0) Demo.config) clientRuns c₁ events =
        some c' →
      (c₁.world.ghost.acked = d :: c.world.ghost.acked ∨ c₁.world.Records d) → c'.world.Owes d →
      c'.world.Records d ∨ World.ExpiredSince Demo.config c₁.world c'.world d := by
  intro hall
  obtain ⟨c, hc, htest⟩ := Demo.reachable_after 0 clientRuns (Demo.world 0) Demo.overtaken
    (Demo.landsUnpromoted (Demo.candidate 2 "st" "u") "st" "stu" ["s"] clientRuns
      (Demo.calls 5 1 1 ++ .env (.mine [⟨"s", "t", none⟩]) :: Demo.calls 3 8 2 ++
        [.env (.mine [⟨"st", "u", none⟩])])
      (fun c' => decide (c'.world.ghost.dropped = [] ∧ c'.world.db.superseded = []) &&
        (c'.world.db.deltas.select (fun r =>
          decide (SameDelta r.delta (Demo.candidate 2 "st" "u")))).isEmpty)
      (.run 5 { block := 1 })) (by decide +kernel)
  obtain ⟨c₁, c', hs, hrun, hack, howes, hlost⟩ := Demo.owes_of_landsUnpromoted rfl htest
  obtain ⟨hnone, hrows⟩ := Bool.and_eq_true_iff.mp hlost
  obtain ⟨hdropped, harchive⟩ := of_decide_eq_true hnone
  have hgone : ∀ {r}, r ∈ c'.world.db.deltas → ¬SameDelta r.delta (Demo.candidate 2 "st" "u") := by
    intro r hr hsame
    have hmem : r ∈ c'.world.db.deltas.select (fun r =>
        decide (SameDelta r.delta (Demo.candidate 2 "st" "u"))) :=
      Table.mem_select.mpr ⟨hr, decide_eq_true hsame⟩
    rw [List.isEmpty_iff.mp hrows] at hmem
    cases hmem
  rcases hall c c₁ c' _ _ _ hc hs hrun (.inl hack) howes with hrec | ⟨dropped, heq, x, hx, _⟩
  · cases hrec with
    | queued hr hsame => exact hgone hr hsame
    | parked hr hsame => exact hgone hr hsame
    | archived hmem =>
      rw [harchive] at hmem
      cases hmem
  · rw [hdropped] at heq
    rw [(List.append_eq_nil_iff.mp heq.symm).1] at hx
    cases hx

end Guardian
