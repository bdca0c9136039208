import Guardian.Safety.Recorded
import Guardian.Services.GetDeltaSince

/- What `get_delta_since` merges is a segment of the account's history, as long
   as every delta that went by left its row.

   The rows are picked and ordered by nonce, and linked by commitment. The two
   agree while the newest canonical row ends at the stored commitment: the next
   promotion then goes on from it, to a larger account nonce. A `/configure`
   moves the stored state and leaves no row. The next promotion goes on from
   there, and the merge joins two deltas with a gap between them:
   `merged_delta_skips_reonboarding`. -/
namespace Guardian

open Interleaving

/-- The account nonce a commitment binds: a document reports it, and every delta
raises it. -/
structure Network.Numbered (net : Network) where
  nonce : Commitment → Nat
  head_nonce : ∀ {s head}, net.getStateHead s = some head →
    head.nonce = some (nonce head.commitment)
  apply_nonce : ∀ {s p applied}, net.applyDelta s p = some applied →
    applied.nonce = some (nonce applied.commitment)
  step_lt : ∀ {a b}, net.Step a b → nonce a < nonce b

/-- Each delta starts where the one before it ended. -/
def Unbroken (deltas : List DeltaObject) : Prop :=
  deltas.IsChain (fun a b => a.newCommitment = some b.prevCommitment)

instance (deltas : List DeltaObject) : Decidable (Unbroken deltas) :=
  inferInstanceAs (Decidable (deltas.IsChain _))

/-- Whether a canonical delta is stored. -/
def Db.hasCanonical (db : Db) : Bool := db.deltas.rows.any (·.delta.status.isCanonical)

/-- The delta a call queues. -/
def Op.queuedDelta : Op → Option DeltaObject
  | .write (.submitCandidate delta _ _) => some delta
  | .commit (.admitExecutionCandidate a) => some a.delta
  | _ => none

/-- What the call queues is labelled with the account nonce it produces. -/
def Op.labelled {net : Network} (num : net.Numbered) (op : Op) : Bool :=
  op.queuedDelta.all (fun d => d.newCommitment.all (fun new => num.nonce new == d.nonce.toNat))

/-- The column orders the nonce of what the call queues. -/
def Op.queuesNarrow (op : Op) : Bool := op.queuedDelta.all (fun d => decide (d.nonce.toNat < 2^63))

/-- A `/configure` moves the stored commitment only while no canonical delta is
stored. -/
def Op.movesUnrecorded (w : World) : Op → Bool
  | .write (.submitState state _) | .write (.replaceState state _) =>
    !w.db.hasCanonical || w.db.state.any (·.commitment == state.commitment)
  | _ => true

/-- A promotion finds the post commitment it verified. -/
def Op.promotesItsRow (w : World) : Op → Bool
  | .commit (.promoteCandidate p) => (w.db.rowAt p.delta.nonce).all (fun r =>
      decide (p.source ≠ .superseded → p.source.matches r.delta.status = true →
        r.delta.newCommitment = p.delta.newCommitment))
  | _ => true

/-- Runs in which every queued delta is labelled with the account nonce it
produces. -/
def labelledRuns {net : Network} (num : net.Numbered) : RunGuard where
  spawn := fun _ _ => true
  call := fun _ op _ _ => op.labelled num
  act := fun _ _ => true

/-- Such runs in which the column orders every nonce, no `/configure` moves the
state past canonical deltas, and every promotion finds its row. -/
def recordedRuns {net : Network} (num : net.Numbered) : RunGuard where
  spawn := fun _ _ => true
  call := fun _ op _ w => op.labelled num && op.queuesNarrow && op.movesUnrecorded w &&
    op.promotesItsRow w
  act := fun _ _ => true

/-- The delta leads from its base to a state whose account nonce is its label. -/
structure Labelled {net : Network} (num : net.Numbered) (d : DeltaObject) (new : Commitment) :
    Prop where
  newCommitment : d.newCommitment = some new
  step : net.Step d.prevCommitment new
  nonce : num.nonce new = d.nonce.toNat
  narrow : d.nonce.toNat < 2^63

/-- A stored canonical delta. -/
def Db.Canonical (db : Db) (r : DeltaRow) : Prop :=
  r ∈ db.deltas ∧ r.delta.status.isCanonical = true

theorem Db.hasCanonical_eq_true {db : Db} {r : DeltaRow} (h : db.Canonical r) :
    db.hasCanonical = true := List.any_eq_true.mpr ⟨r, h.1, h.2⟩

/-- The canonical deltas are linked, and the newest one ends at the stored
commitment. -/
structure SegmentInv {net : Network} (num : net.Numbered) (w : World) : Prop where
  rows : ∀ {r}, r ∈ w.db.deltas → ∃ new, Labelled num r.delta new
  archived : ∀ {s}, s ∈ w.db.superseded → ∃ new, Labelled num s.delta new
  head : ∀ {r}, w.db.Canonical r → ∃ s t, w.db.state = some s ∧ w.db.Canonical t ∧
    t.delta.newCommitment = some s.commitment ∧ r.delta.nonce.toNat ≤ num.nonce s.commitment
  links : ∀ {a b}, w.db.Canonical a → w.db.Canonical b →
    a.delta.nonce.toNat < b.delta.nonce.toNat →
    a.delta.nonce.toNat ≤ num.nonce b.delta.prevCommitment ∧
      ∃ c, w.db.Canonical c ∧ c.delta.newCommitment = some b.delta.prevCommitment

section Rows
variable {net : Network} {num : net.Numbered} {cfg : Config} {pid : Nat} {op : Op} {w w' : World}

theorem Labelled.of_same {d d' : DeltaObject} {new : Commitment} (h : Labelled num d new)
    (hsame : SameDelta d' d) : Labelled num d' new where
  newCommitment := hsame.newCommitment.trans h.newCommitment
  step := hsame.prevCommitment ▸ h.step
  nonce := hsame.nonce ▸ h.nonce
  narrow := hsame.nonce ▸ h.narrow

/-- A canonical row stays. -/
theorem Effect.canonical_kept (h : Effect pid w op w') (hfits : op.Fits net cfg) {r : DeltaRow}
    (hr : w.db.Canonical r) : w'.db.Canonical r := by
  obtain ⟨hmem, hc⟩ := hr
  have hparked : r.delta.status.isParked ≠ true := by
    cases hs : r.delta.status <;> simp_all [DeltaStatus.isCanonical, DeltaStatus.isParked,
      DeltaStatus.isRetained, DeltaStatus.isClientAbandoned]
  have hcand : r.delta.status.isCandidate ≠ true := by
    rw [isCandidate_of_isCanonical hc]
    exact Bool.false_ne_true
  cases h.row_to hmem with
  | kept hmem => exact ⟨hmem, hc⟩
  | superseded _ _ hp => exact absurd hp hparked
  | abandoned _ hrec => exact absurd hrec.candidate hcand
  | updated _ hup => exact absurd hup.candidate hcand
  | @flipped p _ _ _ hm =>
    cases hs : r.delta.status <;> cases hp : p.source <;>
      simp_all [DeltaStatus.isCanonical, PromotableKind.matches, DeltaStatus.isRetained,
        DeltaStatus.isClientAbandoned, DeltaStatus.isCandidate, DeltaStatus.isParked]
  | replaced _ _ _ _ hp => exact absurd hp hparked
  | discarded hcall hdis =>
    subst hcall
    have hkind := hdis.row_kind
    rcases hfits.2 with rfl | ⟨rfl, _⟩ <;>
      cases hs : r.delta.status <;> simp_all [DeltaStatus.isCanonical, DeltaStatus.kind]
  | resolved _ _ _ _ _ hcandidate => exact absurd hcandidate hcand

/-- What a pass writes over a candidate is not canonical. -/
theorem Settles.not_canonical {snapshot : DeltaObject} {status : DeltaStatus} {at? : Option Time}
    (h : Settles snapshot status) (hsnapshot : snapshot.status.isCandidate = true) :
    (status.withAbandonRequestPreservedFrom at?).isCanonical = false := by
  cases status with
  | canonical t =>
    rcases h with h | h | h
    · cases h
    · cases h
    · rw [hsnapshot] at h
      cases h
  | candidate _ _ _ own => cases own <;> cases at? <;> rfl
  | _ => rfl

/-- An archived delta was archived before, or a row was. -/
theorem Effect.archived_from (h : Effect pid w op w') {s : SupersededDelta}
    (hs : s ∈ w'.db.superseded) :
    s ∈ w.db.superseded ∨ ∃ r ∈ w.db.deltas, s.delta = r.delta := by
  have harchives : ∀ {db' : Db} {nonce now archive}, w.db.Archives db' nonce now archive →
      s ∈ db'.superseded → s ∈ w.db.superseded ∨ ∃ r ∈ w.db.deltas, s.delta = r.delta := by
    intro db' nonce now archive ha hs
    rcases ha.mp hs with hs | ⟨_, r, hr, _, rfl⟩
    · exact .inl hs
    · exact .inr ⟨r, hr, rfl⟩
  cases h with
  | submitted h | admitted h => exact harchives h.archives hs
  | abandonRecorded h | updated h => exact .inl (h.rewrites.superseded ▸ hs)
  | discarded h => exact .inl (h.deletes.superseded ▸ hs)
  | plain h | resolved h => exact .inl (h.superseded ▸ hs)
  | authSet =>
    refine .inl ?_
    simp only [Db.setMetadataRow] at hs
    split at hs <;> exact hs
  | flagCleared =>
    rw [Db.clearPendingFlagIfNone_eq] at hs
    exact .inl hs
  | pruned => exact .inl (List.mem_filter.mp hs).1
  | promoted h =>
    rcases h.row with ⟨_, _, _, _, hrw⟩ | ⟨_, hres⟩
    · exact .inl (hrw.superseded ▸ hs)
    · rcases hres.mem_superseded.mp hs with ⟨hs, _⟩ | ⟨r, hr, _, rfl⟩
      · exact .inl hs
      · exact .inr ⟨r, hr, rfl⟩
  | reserved h => exact .inl (by rw [h.eq] at hs; exact hs)
  | renewed h =>
    obtain ⟨_, _, _, _, heq⟩ := h.renews
    exact .inl (by rw [heq] at hs; exact hs)
  | settled h =>
    obtain ⟨_, _, _, _, _, _, _, _, _, _, _, heq⟩ := h.settles
    exact .inl (by rw [heq] at hs; exact hs)
  | _ => exact .inl hs

/-- What a labelled call queues is labelled. -/
theorem Queued.isLabelled {delta : DeltaObject} (hq : Queued w.db w'.db op delta)
    (hfits : op.Fits net cfg) (hlabel : op.labelled num = true) (hnarrow : op.queuesNarrow = true) :
    ∃ new, Labelled num delta new := by
  obtain ⟨_, new, hnew, hleads⟩ := hq.queues hfits
  have hqueued : op.queuedDelta = some delta := by cases hq <;> rfl
  rw [Op.labelled, hqueued, Option.all_some, hnew, Option.all_some, beq_iff_eq] at hlabel
  rw [Op.queuesNarrow, hqueued, Option.all_some, decide_eq_true_eq] at hnarrow
  exact ⟨new, hnew, hleads.step, hlabel, hnarrow⟩

/-- A row that a promotion has made canonical. -/
structure Made (num : net.Numbered) (p : CandidatePromotion) (r : DeltaRow) : Prop where
  labelled : Labelled num r.delta p.state.commitment
  prevCommitment : r.delta.prevCommitment = p.delta.prevCommitment
  nonce : r.delta.nonce = p.delta.nonce
  canonical : r.delta.status.isCanonical = true

variable {p : CandidatePromotion}

/-- The row a promotion flips, where it is the one it verified. -/
theorem SegmentInv.made_flipped (one : net.OneLineage) (hi : SegmentInv num w)
    (hfits : Op.Fits net cfg (.commit (.promoteCandidate p)))
    (hok : LandingOk net w (.commit (.promoteCandidate p)))
    (hfinds : Op.promotesItsRow w (.commit (.promoteCandidate p)) = true) {row : DeltaRow}
    (hrow : row ∈ w.db.deltas) (hn : row.delta.nonce = p.delta.nonce)
    (hm : p.source.matches row.delta.status = true) (hsource : p.source ≠ .superseded) :
    Made num p (row.rewrite (fun _ => p.delta.status) (fun _ => p.delta.newCommitment)) := by
  obtain ⟨new, hlab⟩ := hi.rows hrow
  have hnew : row.delta.newCommitment = p.delta.newCommitment := by
    rw [Op.promotesItsRow, Db.rowAt_eq_some.mpr ⟨hrow, hn⟩] at hfinds
    exact of_decide_eq_true hfinds hsource hm
  obtain rfl : new = p.state.commitment := by
    have hsome := hlab.newCommitment
    rw [hnew, hfits.canonical.2] at hsome
    exact (Option.some.inj hsome).symm
  exact ⟨⟨hfits.canonical.2, hlab.step, hlab.nonce, hlab.narrow⟩, one hlab.step hok.2.1, hn,
    hfits.canonical.1⟩

/-- The row a promotion restores. -/
theorem SegmentInv.made_restored (hi : SegmentInv num w) {db' : Db}
    (hfits : Op.Fits net cfg (.commit (.promoteCandidate p)))
    (hres : Db.Restores p.delta p.now w.db db') : Made num p ⟨w.db.nextId, p.delta⟩ := by
  obtain ⟨s, hs, harch⟩ := hres.archived
  obtain ⟨new, hlab⟩ := hi.archived hs
  simp only [Db.restoreSuperseded.isArchived, Bool.and_eq_true, beq_iff_eq] at harch
  obtain ⟨⟨⟨hn, hprev⟩, hnew⟩, _⟩ := harch
  obtain rfl : new = p.state.commitment := by
    have hsome := hlab.newCommitment
    rw [hnew, hfits.canonical.2] at hsome
    exact (Option.some.inj hsome).symm
  exact ⟨⟨hfits.canonical.2, hprev ▸ hlab.step, hn ▸ hlab.nonce, hn ▸ hlab.narrow⟩, rfl, rfl,
    hfits.canonical.1⟩

/-- A promotion makes one row canonical. -/
theorem SegmentInv.makes (one : net.OneLineage) (hi : SegmentInv num w)
    (hfits : Op.Fits net cfg (.commit (.promoteCandidate p)))
    (hok : LandingOk net w (.commit (.promoteCandidate p)))
    (hfinds : Op.promotesItsRow w (.commit (.promoteCandidate p)) = true)
    (hp : Db.Promoted p w.db w'.db) : ∃ r, w'.db.Canonical r ∧ Made num p r := by
  rcases hp.row with ⟨row, hn, hm, hsource, hrw⟩ | ⟨_, hres⟩
  · have hmade := hi.made_flipped one hfits hok hfinds hrw.mem_row hn hm hsource
    exact ⟨_, ⟨hrw.mem.mpr (.inl rfl), hmade.canonical⟩, hmade⟩
  · have hmade := hi.made_restored hfits hres
    exact ⟨_, ⟨hres.inserts.mem.mpr (.inl rfl), hmade.canonical⟩, hmade⟩

/-- A canonical row was there before the call, or a promotion made it. -/
theorem SegmentInv.canonical_cases (one : net.OneLineage) (hi : SegmentInv num w)
    (h : Effect pid w op w') (hfits : op.Fits net cfg) (hheld : HeldOk cfg pid w op)
    (hok : LandingOk net w op) (hfinds : op.promotesItsRow w = true) {r : DeltaRow}
    (hr : w'.db.Canonical r) : w.db.Canonical r ∨
      ∃ p, op = .commit (.promoteCandidate p) ∧ Db.Promoted p w.db w'.db ∧ Made num p r := by
  obtain ⟨hmem, hc⟩ := hr
  cases h.row_cases hmem with
  | kept hmem => exact .inl ⟨hmem, hc⟩
  | queued hq heq =>
    obtain ⟨⟨t, ht⟩, _⟩ := hq.queues hfits
    rw [heq, ht] at hc
    cases hc
  | abandoned _ hrec heq =>
    rw [heq] at hc
    have hcand := isCandidate_of_isCanonical hc
    rw [DeltaRow.rewrite, DeltaStatus.isCandidate_withAbandonRequested, hrec.candidate] at hcand
    cases hcand
  | updated hcall _ heq =>
    subst hcall
    rw [heq] at hc
    exact absurd hc (by simp [DeltaRow.rewrite, hfits.2.not_canonical hheld.2])
  | flipped hcall hp hrow hn hm hsource heq =>
    subst hcall heq
    exact .inr ⟨_, rfl, hp, hi.made_flipped one hfits hok hfinds hrow hn hm hsource⟩
  | restored hcall hp _ hres heq =>
    subst hcall heq
    exact .inr ⟨_, rfl, hp, hi.made_restored hfits hres⟩

/-- Every call of a recorded run keeps the rows labelled. -/
theorem SegmentInv.rows_of_effect (one : net.OneLineage) (hi : SegmentInv num w)
    (h : Effect pid w op w') (hfits : op.Fits net cfg) (hok : LandingOk net w op)
    (hlabel : op.labelled num = true) (hnarrow : op.queuesNarrow = true)
    (hfinds : op.promotesItsRow w = true) {r : DeltaRow} (hr : r ∈ w'.db.deltas) :
    ∃ new, Labelled num r.delta new := by
  have hsame : ∀ {row : DeltaRow}, row ∈ w.db.deltas → SameDelta r.delta row.delta →
      ∃ new, Labelled num r.delta new := by
    intro row hrow hs
    obtain ⟨new, hlab⟩ := hi.rows hrow
    exact ⟨new, hlab.of_same hs⟩
  cases h.row_cases hr with
  | kept hmem => exact hi.rows hmem
  | queued hq heq => exact heq ▸ hq.isLabelled hfits hlabel hnarrow
  | abandoned _ hrec heq => exact hsame hrec.rewrites.mem_row (heq ▸ rewrite_same _ _)
  | updated _ hup heq => exact hsame hup.rewrites.mem_row (heq ▸ rewrite_same _ _)
  | flipped hcall _ hrow hn hm hsource heq =>
    subst hcall heq
    exact ⟨_, (hi.made_flipped one hfits hok hfinds hrow hn hm hsource).labelled⟩
  | restored hcall _ _ hres heq =>
    subst hcall heq
    exact ⟨_, (hi.made_restored hfits hres).labelled⟩

/-- A canonical row is at or before the state a promotion stores. -/
theorem SegmentInv.below_promoted (hi : SegmentInv num w) {db' : Db}
    (hok : LandingOk net w (.commit (.promoteCandidate p))) (hp : Db.Promoted p w.db db')
    {r : DeltaRow} (hr : w.db.Canonical r) :
    r.delta.nonce.toNat ≤ num.nonce p.state.commitment := by
  obtain ⟨s, _, hs, _, _, hle⟩ := hi.head hr
  obtain ⟨base, hbase, hprev | hnew⟩ := hp.base
  · rw [hbase] at hs
    cases hs
    rw [hprev] at hle
    exact hle.trans (num.step_lt hok.2.1).le
  · rw [hbase] at hs
    cases hs
    exact hnew ▸ hle

/-- The stored commitment is where the newest canonical row ends. -/
theorem SegmentInv.head_of_effect (one : net.OneLineage) (hi : SegmentInv num w)
    (h : Effect pid w op w') (hfits : op.Fits net cfg) (hheld : HeldOk cfg pid w op)
    (hok : LandingOk net w op) (hmoves : op.movesUnrecorded w = true)
    (hfinds : op.promotesItsRow w = true) {r : DeltaRow} (hr : w'.db.Canonical r) :
    ∃ s t, w'.db.state = some s ∧ w'.db.Canonical t ∧
      t.delta.newCommitment = some s.commitment ∧
      r.delta.nonce.toNat ≤ num.nonce s.commitment := by
  rcases hi.canonical_cases one h hfits hheld hok hfinds hr with hold | ⟨p, rfl, hp, hmade⟩
  swap
  · exact ⟨p.state.asStored, r, hp.state, hr, hmade.labelled.newCommitment,
      hmade.labelled.nonce.ge⟩
  obtain ⟨s, t, hs, ht, hnew, hle⟩ := hi.head hold
  -- a `/configure` past a canonical row leaves the commitment where it was
  have hstays : ∀ {state : StateObject},
      (!w.db.hasCanonical || w.db.state.any (·.commitment == state.commitment)) = true →
      s.commitment = state.commitment := by
    intro state hg
    rw [Db.hasCanonical_eq_true hold, hs] at hg
    simpa using hg
  rcases h.state_cases with ⟨heq, _⟩ | ⟨state, hwrite, heq, _⟩
  · exact ⟨s, t, heq.trans hs, h.canonical_kept hfits ht, hnew, hle⟩
  · cases hwrite with
    | submitted =>
      have hsame := hstays hmoves
      exact ⟨state.asStored, t, heq, h.canonical_kept hfits ht, by rw [hnew, hsame]; rfl,
        hsame ▸ hle⟩
    | replaced =>
      have hsame := hstays hmoves
      exact ⟨state.asStored, t, heq, h.canonical_kept hfits ht, by rw [hnew, hsame]; rfl,
        hsame ▸ hle⟩
    | promoted hp =>
      obtain ⟨t', ht', hmade⟩ := hi.makes one hfits hok hfinds hp
      exact ⟨_, t', heq, ht', hmade.labelled.newCommitment, hi.below_promoted hok hp hold⟩

/-- A canonical row builds on the newest canonical one below it. -/
theorem SegmentInv.links_of_effect (one : net.OneLineage) (hi : SegmentInv num w)
    (h : Effect pid w op w') (hfits : op.Fits net cfg) (hheld : HeldOk cfg pid w op)
    (hok : LandingOk net w op) (hfinds : op.promotesItsRow w = true) {a b : DeltaRow}
    (ha : w'.db.Canonical a) (hb : w'.db.Canonical b)
    (hlt : a.delta.nonce.toNat < b.delta.nonce.toNat) :
    a.delta.nonce.toNat ≤ num.nonce b.delta.prevCommitment ∧
      ∃ c, w'.db.Canonical c ∧ c.delta.newCommitment = some b.delta.prevCommitment := by
  have hkept : w.db.Canonical a → w.db.Canonical b →
      a.delta.nonce.toNat ≤ num.nonce b.delta.prevCommitment ∧
        ∃ c, w'.db.Canonical c ∧ c.delta.newCommitment = some b.delta.prevCommitment := by
    intro ha hb
    obtain ⟨hle, c, hc, hnew⟩ := hi.links ha hb hlt
    exact ⟨hle, c, h.canonical_kept hfits hc, hnew⟩
  rcases hi.canonical_cases one h hfits hheld hok hfinds ha with hold | ⟨p, rfl, hp, hmade⟩
  · rcases hi.canonical_cases one h hfits hheld hok hfinds hb with hbold | ⟨p, rfl, hp, hmade⟩
    · exact hkept hold hbold
    · -- the new row builds on the stored commitment, or was there before
      obtain ⟨s, t, hs, ht, hnew, hle⟩ := hi.head hold
      obtain ⟨base, hbase, hprev | hstate⟩ := hp.base
      · rw [hbase] at hs
        cases hs
        rw [hmade.prevCommitment, ← hprev]
        exact ⟨hle, t, h.canonical_kept hfits ht, hnew⟩
      · rw [hbase] at hs
        cases hs
        obtain ⟨new, hlab⟩ := hi.rows ht.1
        have heq : t = b := by
          refine Db.eq_of_nonce (h.canonical_kept hfits ht).1 hb.1 (BitVec.eq_of_toNat_eq ?_)
          have hsome := hlab.newCommitment.symm.trans hnew
          rw [← hlab.nonce, Option.some.inj hsome, hstate, hmade.labelled.nonce]
        exact hkept hold (heq ▸ ht)
  · -- nothing canonical is above the new row
    rcases hi.canonical_cases one h hfits hheld hok hfinds hb with hbold | ⟨q, hq, _, hmade'⟩
    · have hle := hi.below_promoted hok hp hbold
      rw [hmade.labelled.nonce] at hle
      omega
    · cases hq
      rw [hmade.nonce, hmade'.nonce] at hlt
      omega

/-- Every call of a recorded run keeps the canonical deltas linked. -/
theorem SegmentInv.of_effect (one : net.OneLineage) (hi : SegmentInv num w)
    (h : Effect pid w op w') (hfits : op.Fits net cfg) (hheld : HeldOk cfg pid w op)
    (hok : LandingOk net w op) (hlabel : op.labelled num = true)
    (hnarrow : op.queuesNarrow = true) (hmoves : op.movesUnrecorded w = true)
    (hfinds : op.promotesItsRow w = true) : SegmentInv num w' where
  rows := hi.rows_of_effect one h hfits hok hlabel hnarrow hfinds
  archived := by
    intro s hs
    rcases h.archived_from hs with hold | ⟨r, hr, heq⟩
    · exact hi.archived hold
    · exact heq ▸ hi.rows hr
  head := hi.head_of_effect one h hfits hheld hok hmoves hfinds
  links := hi.links_of_effect one h hfits hheld hok hfinds

theorem SegmentInv.of_act (hi : SegmentInv num w) (h : ActEffect net w w') : SegmentInv num w' := by
  have hdb := h.db
  constructor <;> rw [hdb]
  · exact hi.rows
  · exact hi.archived
  · exact hi.head
  · exact hi.links

theorem SegmentInv.of_fresh (h : w.Fresh net) : SegmentInv num w where
  rows := fun hr => by
    rw [h.deltas] at hr
    exact absurd hr (Table.not_mem_empty _)
  archived := fun hs => by
    rw [h.superseded] at hs
    cases hs
  head := fun hr => by
    have hmem := hr.1
    rw [h.deltas] at hmem
    exact absurd hmem (Table.not_mem_empty _)
  links := fun ha => by
    have hmem := ha.1
    rw [h.deltas] at hmem
    exact absurd hmem (Table.not_mem_empty _)

/-- The canonical deltas from a nonce on are unbroken. -/
theorem SegmentInv.unbroken (hi : SegmentInv num w) (fromNonce : Nonce) :
    Unbroken (deltasToMerge fromNonce w.db) := by
  rw [Unbroken, deltasToMerge_eq, List.isChain_map]
  refine Table.isChain_select fun a ha b hb hlt hnone => ?_
  obtain ⟨ha, hp⟩ := Table.mem_select.mp ha
  obtain ⟨hb, hq⟩ := Table.mem_select.mp hb
  obtain ⟨hac, hfrom⟩ := Bool.and_eq_true_iff.mp hp
  obtain ⟨hbc, _⟩ := Bool.and_eq_true_iff.mp hq
  obtain ⟨_, hlaba⟩ := hi.rows ha
  obtain ⟨_, hlabb⟩ := hi.rows hb
  have hlt' := (nonceColumn_lt_iff hlaba.narrow hlabb.narrow).mp hlt
  obtain ⟨hle, c, hc, hnew⟩ := hi.links ⟨ha, hac⟩ ⟨hb, hbc⟩ hlt'
  obtain ⟨_, hlabc⟩ := hi.rows hc.1
  -- the row `b` builds on is not below `a`, and nothing is between the two
  have hbase : num.nonce b.delta.prevCommitment = c.delta.nonce.toNat := by
    have hsome := hlabc.newCommitment.symm.trans hnew
    rw [← Option.some.inj hsome, hlabc.nonce]
  have hcb : c.delta.nonce.toNat < b.delta.nonce.toNat := by
    rw [← hbase, ← hlabb.nonce]
    exact num.step_lt hlabb.step
  have hac' : a.column ≤ c.column := by
    by_contra hca
    have := (nonceColumn_lt_iff hlabc.narrow hlaba.narrow).mp (not_le.mp hca)
    rw [BitVec.lt_def] at this
    omega
  have hsel : c ∈ w.db.deltas.select (fun r => r.delta.status.isCanonical &&
      decide (nonceColumn fromNonce ≤ r.column)) := by
    refine Table.mem_select.mpr ⟨hc.1, Bool.and_eq_true_iff.mpr ⟨hc.2, decide_eq_true ?_⟩⟩
    exact (of_decide_eq_true hfrom).trans hac'
  have hca := hnone c hsel ((nonceColumn_lt_iff hlabc.narrow hlabb.narrow).mpr hcb)
  have heq : a = c := Table.eq_of_key ha hc.1 (le_antisymm hac' hca)
  exact heq ▸ hnew

end Rows

/-- The merged delta goes over the deltas one after the other, from the base of
the first to the post commitment of the last. -/
structure Describes (net : Network) (mergeDeltas : List Payload → Option Payload)
    (deltas : List DeltaObject) (merged : DeltaObject) : Prop where
  unbroken : Unbroken deltas
  steps : ∀ d ∈ deltas, ∃ new, d.newCommitment = some new ∧ net.Step d.prevCommitment new
  base : deltas.head?.map (·.prevCommitment) = some merged.prevCommitment
  post : deltas.getLast?.map (·.newCommitment) = some merged.newCommitment
  payload : mergeDeltas (deltas.map (·.deltaPayload)) = some merged.deltaPayload

/-- In every run whose deltas are labelled with the account nonces they produce,
below `2^63`, in which no `/configure` moves the state past canonical deltas and
every promotion finds its row, what `get_delta_since` merges is one unbroken
chain, and the merged delta goes from its base to its post commitment. -/
theorem merged_delta_is_chain_segment (net : Network) (law : net.Lawful) (one : net.OneLineage)
    (num : net.Numbered) (cfg : Config) (mergeDeltas : List Payload → Option Payload) (w₀ : World)
    (hfresh : w₀.Fresh net) (c : SystemConf) (h : Reachable net cfg (recordedRuns num) w₀ c)
    (fromNonce : Nonce) (merged : DeltaObject)
    (hmerged : getDeltaSince mergeDeltas fromNonce c.world.db = .ok merged) :
    Describes net mergeDeltas (deltasToMerge fromNonce c.world.db) merged := by
  have hinv : SegmentInv num c.world := by
    refine Reach.induct (K := fun pid op w =>
      op.Fits net cfg ∧ HeldOk cfg pid w op ∧ LandingOk net w op) (I := SegmentInv num)
      (fun hr hp => ?_) (.of_fresh hfresh) (fun hk hg hx hi => ?_)
      (fun _ hact hi => hi.of_act (act_effect hact)) h
    · obtain ⟨hfits, hheld⟩ := Reachable.held hr hp
      exact ⟨hfits, hheld, (Reachable.landing law one hfresh hr hp).2.2⟩
    · simp only [recordedRuns, Bool.and_eq_true] at hg
      obtain ⟨⟨⟨hlabel, hnarrow⟩, hmoves⟩, hfinds⟩ := hg
      exact hi.of_effect one (exec_effect hx).2 hk.1 hk.2.1 hk.2.2 hlabel hnarrow hmoves hfinds
  obtain ⟨firstDelta, lastDelta, hfirst, hlast, hprev, hnew, _, hpayload⟩ :=
    getDeltaSince_ok hmerged
  refine ⟨hinv.unbroken fromNonce, fun d hd => ?_, ?_, ?_, hpayload⟩
  · rw [deltasToMerge_eq] at hd
    obtain ⟨r, hr, rfl⟩ := List.mem_map.mp hd
    obtain ⟨new, hlab⟩ := hinv.rows (Table.mem_select.mp hr).1
    exact ⟨new, hlab.newCommitment, hlab.step⟩
  · rw [hfirst, hprev]
    rfl
  · rw [hlast, hnew]
    rfl

/-! ## Runs -/

theorem letters_nonce_lt {origin : Nat} {a b : Commitment}
    (h : (Network.letters origin).Step a b) : origin + (a.length - 1) < origin + (b.length - 1) := by
  obtain ⟨s, p, applied, hs, ha, rfl⟩ := h
  obtain ⟨rfl, hne, _⟩ := Network.letters_isState.mp hs
  obtain ⟨_, hc, _, hp, _⟩ := Network.letters_apply ha
  have hpos : 0 < a.length := Nat.pos_of_ne_zero fun h => hne (String.length_eq_zero_iff.mp h)
  rw [hc, String.length_append, hp]
  omega

/-- The account nonce over letters. -/
def Network.lettersNumbered (origin : Nat) : (letters origin).Numbered where
  nonce := fun c => origin + (c.length - 1)
  head_nonce := by
    intro s head h
    simp only [letters] at h
    split at h
    · cases h
      rfl
    · cases h
  apply_nonce := by
    intro s p applied h
    simp only [letters] at h
    split at h
    · cases h
      rfl
    · cases h
  step_lt := letters_nonce_lt

/-- Letters merge to the word they spell. -/
def Demo.mergeDeltas (payloads : List Payload) : Option Payload := some (String.join payloads)

/-- A push of `letter` at `block` lands in the next one and is promoted, under
the lease of `Demo.promotes`. -/
def Demo.promotesNext (pid : Nat) (nonce : Nonce) (base letter : String) (block : Nat) :
    List (Event Request Choice Act) :=
  .spawn pid (.push (Demo.delta nonce base letter)) :: Demo.calls pid 9 block ++
    .env (.mine [⟨base, letter, none⟩]) :: .spawn (pid + 1) (.fullPass (Demo.fence "a" 0)) ::
      Demo.calls (pid + 1) 13 (block + 1)

/-- What is merged from nonce 1 on satisfies `test`. -/
def Demo.mergesFromOne (test : List DeltaObject → Bool) (c : SystemConf) : Bool :=
  test (deltasToMerge 1 c.world.db) &&
    (getDeltaSince Demo.mergeDeltas 1 c.world.db).toOption.isSome

theorem Demo.merged_of_mergesFromOne {test : List DeltaObject → Bool} {c : SystemConf}
    (h : Demo.mergesFromOne test c = true) :
    ∃ merged, getDeltaSince Demo.mergeDeltas 1 c.world.db = .ok merged ∧
      test (deltasToMerge 1 c.world.db) = true := by
  obtain ⟨htest, hsome⟩ := Bool.and_eq_true_iff.mp h
  cases hm : getDeltaSince Demo.mergeDeltas 1 c.world.db with
  | error e =>
    rw [hm] at hsome
    cases hsome
  | ok merged => exact ⟨merged, rfl, htest⟩

/-- Two pushes that land and are promoted, merged. -/
theorem merged_delta_is_chain_segment_two :
    ∃ c merged, Reachable (.letters 0) Demo.config (recordedRuns (Network.lettersNumbered 0))
        (Demo.world 0) c ∧
      getDeltaSince Demo.mergeDeltas 1 c.world.db = .ok merged ∧
      (deltasToMerge 1 c.world.db).length = 2 ∧
      Describes (.letters 0) Demo.mergeDeltas (deltasToMerge 1 c.world.db) merged := by
  obtain ⟨c, hc, htest⟩ := Demo.reachable_after 0 (recordedRuns (Network.lettersNumbered 0))
    (Demo.world 0) (Demo.promotes ++ Demo.promotesNext 21 2 "st" "u" 2)
    (Demo.mergesFromOne (·.length == 2)) (by decide +kernel)
  obtain ⟨merged, hmerged, hlen⟩ := Demo.merged_of_mergesFromOne htest
  exact ⟨c, merged, hc, hmerged, by simpa using hlen, merged_delta_is_chain_segment _
    (Network.lettersLawful 0) Network.letters_oneLineage (Network.lettersNumbered 0) Demo.config _ _
    (Demo.fresh_world 0) c hc 1 merged hmerged⟩

/-- A push lands and is promoted; the account moves on without Guardian, and is
re-onboarded there; a second push lands and is promoted. -/
def Demo.reonboards : List (Event Request Choice Act) :=
  Demo.promotes ++ .env (.mine [⟨"st", "u", none⟩]) ::
    .spawn 20 (.configure ⟨"stu", .midenFalconRpo ["old"], "old"⟩) :: Demo.calls 20 9 3 ++
    Demo.promotesNext 21 3 "stu" "v" 3

theorem merged_delta_skips_reonboarding :
    ¬∀ c, Reachable (.letters 0) Demo.config (labelledRuns (Network.lettersNumbered 0))
        (Demo.world 0) c →
      ∀ fromNonce merged, getDeltaSince Demo.mergeDeltas fromNonce c.world.db = .ok merged →
        Unbroken (deltasToMerge fromNonce c.world.db) := by
  intro hall
  obtain ⟨c, hc, htest⟩ := Demo.reachable_after 0 (labelledRuns (Network.lettersNumbered 0))
    (Demo.world 0) Demo.reonboards (Demo.mergesFromOne (fun ds => decide (¬Unbroken ds)))
    (by decide +kernel)
  obtain ⟨merged, hmerged, hbroken⟩ := Demo.merged_of_mergesFromOne htest
  exact of_decide_eq_true hbroken (hall c hc 1 merged hmerged)

end Guardian
