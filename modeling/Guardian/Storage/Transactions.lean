import Guardian.Storage.PostgresExecution

/- What each transaction of the Postgres backend does, said once. A transaction
   either leaves the rows alone, or is one of the changes below with the guards
   it was made under. The theorems `<transaction>_cases` are the only ones that
   unfold a transaction; every invariant is proved from them.

   Rows are told apart by nonce, so a statement keyed by nonce and status
   touches one row at most: `Inserts`, `Rewrites` and `Deletes` say what the
   `deltas` table holds afterwards. -/
namespace Guardian
namespace Db
variable {db db' : Db}

/-! ## Rows -/

theorem column_eq_iff {r : DeltaRow} {nonce : Nonce} :
    r.column = nonceColumn nonce ↔ r.delta.nonce = nonce :=
  ⟨nonceColumn_inj, congrArg nonceColumn⟩

theorem rowAt_eq_some {nonce : Nonce} {r : DeltaRow} :
    db.rowAt nonce = some r ↔ r ∈ db.deltas ∧ r.delta.nonce = nonce := by
  rw [rowAt, Table.find?_eq_some, column_eq_iff]

theorem rowAt_eq_none {nonce : Nonce} :
    db.rowAt nonce = none ↔ ∀ r ∈ db.deltas, r.delta.nonce ≠ nonce := by
  simp only [rowAt, Table.find?_eq_none, ne_eq, column_eq_iff]

/-- At most one row has a nonce. -/
theorem eq_of_nonce {r r' : DeltaRow} (h : r ∈ db.deltas) (h' : r' ∈ db.deltas)
    (hn : r.delta.nonce = r'.delta.nonce) : r = r' :=
  Table.eq_of_key h h' (congrArg nonceColumn hn)

theorem isAt_iff {nonce : Nonce} {p : DeltaStatus → Bool} {r : DeltaRow} :
    isAt nonce p r = true ↔ r.delta.nonce = nonce ∧ p r.delta.status = true := by
  simp [isAt]

theorem hasCandidate_iff : db.hasCandidate = true ↔ ∃ r ∈ db.deltas, r.delta.status.isCandidate = true := by
  simp [hasCandidate, Table.mem_rows]

theorem hasCandidate_eq_false :
    db.hasCandidate = false ↔ ∀ r ∈ db.deltas, r.delta.status.isCandidate = false := by
  rw [← Bool.not_eq_true, hasCandidate_iff]
  simp

theorem isCandidate_of_isParked {s : DeltaStatus} (h : s.isParked = true) : s.isCandidate = false := by
  cases s <;> simp_all [DeltaStatus.isParked, DeltaStatus.isRetained, DeltaStatus.isClientAbandoned,
    DeltaStatus.isCandidate]

/-- A new row was written over the parked row at its nonce, if there was one. -/
structure Inserts (db db' : Db) (delta : DeltaObject) : Prop where
  parked : ∀ {r}, r ∈ db.deltas → r.delta.nonce = delta.nonce → r.delta.status.isParked = true
  mem : ∀ {r}, r ∈ db'.deltas ↔
    r = ⟨db.nextId, delta⟩ ∨ (r ∈ db.deltas ∧ r.delta.nonce ≠ delta.nonce)
  nextId : db'.nextId = db.nextId + 1

/-- One row was rewritten in its status and post commitment. -/
structure Rewrites (db db' : Db) (row row' : DeltaRow) : Prop where
  mem_row : row ∈ db.deltas
  mem : ∀ {r}, r ∈ db'.deltas ↔ r = row' ∨ (r ∈ db.deltas ∧ r ≠ row)
  nextId : db'.nextId = db.nextId
  superseded : db'.superseded = db.superseded

/-- One row was deleted. -/
structure Deletes (db db' : Db) (row : DeltaRow) : Prop where
  mem_row : row ∈ db.deltas
  mem : ∀ {r}, r ∈ db'.deltas ↔ r ∈ db.deltas ∧ r ≠ row
  nextId : db'.nextId = db.nextId
  superseded : db'.superseded = db.superseded

/-- The rows a row at `nonce` was archived into, if it was. -/
def Archives (db db' : Db) (nonce : Nonce) (now : Time) (archive : Bool) : Prop :=
  ∀ {s}, s ∈ db'.superseded ↔ s ∈ db.superseded ∨
    (archive = true ∧ ∃ r ∈ db.deltas, r.delta.nonce = nonce ∧ s = ⟨r.delta, now⟩)

theorem deleteRow_deletes {nonce : Nonce} {p : DeltaStatus → Bool} {row : DeltaRow}
    (hrow : row ∈ db.deltas) (hn : row.delta.nonce = nonce) (hp : p row.delta.status = true) :
    Deletes db (db.deleteRow nonce p) row where
  mem_row := hrow
  nextId := rfl
  superseded := rfl
  mem := by
    intro r
    simp only [deleteRow, Table.mem_delete, and_congr_right_iff]
    intro hr
    rw [← Bool.not_eq_true, isAt_iff, not_iff_not]
    constructor
    · rintro ⟨hrn, _⟩
      exact eq_of_nonce hr hrow (hrn.trans hn.symm)
    · rintro rfl
      exact ⟨hn, hp⟩

theorem updateRow_rewrites {nonce : Nonce} {p : DeltaStatus → Bool} {row : DeltaRow}
    {status : DeltaStatus → DeltaStatus} {new : Option Commitment → Option Commitment}
    (hrow : row ∈ db.deltas) (hn : row.delta.nonce = nonce) (hp : p row.delta.status = true) :
    Rewrites db (db.updateRow nonce p status new) row (row.rewrite status new) where
  mem_row := hrow
  nextId := rfl
  superseded := rfl
  mem := by
    intro r
    have hat : ∀ {a}, a ∈ db.deltas → (isAt nonce p a = true ↔ a = row) := by
      intro a ha
      rw [isAt_iff]
      constructor
      · rintro ⟨han, _⟩
        exact eq_of_nonce ha hrow (han.trans hn.symm)
      · rintro rfl
        exact ⟨hn, hp⟩
    rw [updateRow, Table.mem_update]
    constructor
    · rintro (⟨a, ha, hpa, rfl⟩ | ⟨hr, hpr⟩)
      · rw [(hat ha).mp hpa]
        exact .inl rfl
      · refine .inr ⟨hr, fun heq => ?_⟩
        rw [(hat hr).mpr heq] at hpr
        cases hpr
    · rintro (rfl | ⟨hr, hne⟩)
      · exact .inl ⟨row, hrow, (hat hrow).mpr rfl, rfl⟩
      · refine .inr ⟨hr, ?_⟩
        rw [← Bool.not_eq_true, hat hr]
        exact hne

/-- Where the row at the nonce is not parked, nothing is superseded. -/
theorem supersedeParked_eq_self {nonce : Nonce} {now : Time} {archive : Bool}
    (h : ∀ r ∈ db.deltas, r.delta.nonce = nonce → r.delta.status.isParked = false) :
    db.supersedeParked nonce now archive = db := by
  have harchive : db.archiveParkedDelta nonce now = db := by
    unfold archiveParkedDelta
    split
    · next r hr =>
      obtain ⟨hmem, hn⟩ := rowAt_eq_some.mp hr
      rw [h r hmem hn]
      rfl
    · rfl
  have hdelete : db.deleteRow nonce (·.isParked) = db := by
    have hrows : db.deltas.delete (isAt nonce (·.isParked)) = db.deltas := by
      refine Table.delete_eq_self fun r hr => ?_
      rw [← Bool.not_eq_true, isAt_iff]
      rintro ⟨hn, hp⟩
      rw [h r hr hn] at hp
      cases hp
    simp only [deleteRow, hrows]
  unfold supersedeParked
  rw [harchive, ite_self, hdelete]

theorem supersedeParked_archives {nonce : Nonce} {now : Time} {archive : Bool}
    (h : ∀ r ∈ db.deltas, r.delta.nonce = nonce → r.delta.status.isParked = true) :
    Archives db (db.supersedeParked nonce now archive) nonce now archive := by
  intro s
  unfold supersedeParked
  cases archive with
  | false => simp [deleteRow]
  | true =>
    simp only [if_true, deleteRow, archiveParkedDelta, true_and]
    split
    · next r hr =>
      obtain ⟨hmem, hn⟩ := rowAt_eq_some.mp hr
      rw [if_pos (h r hmem hn)]
      simp only [List.mem_append, List.mem_singleton]
      constructor
      · rintro (hs | rfl)
        · exact .inl hs
        · exact .inr ⟨r, hmem, hn, rfl⟩
      · rintro (hs | ⟨r', hmem', hn', rfl⟩)
        · exact .inl hs
        · rw [eq_of_nonce hmem' hmem (hn'.trans hn.symm)]
          exact .inr rfl
    · next hr =>
      constructor
      · exact .inl
      · rintro (hs | ⟨r', hmem', hn', rfl⟩)
        · exact hs
        · exact absurd hn' (rowAt_eq_none.mp hr r' hmem')

@[simp] theorem archiveParkedDelta_deltas (nonce : Nonce) (now : Time) :
    (db.archiveParkedDelta nonce now).deltas = db.deltas := by
  unfold archiveParkedDelta
  split
  · split <;> rfl
  · rfl

theorem mem_supersedeParked {nonce : Nonce} {now : Time} {archive : Bool} {r : DeltaRow} :
    r ∈ (db.supersedeParked nonce now archive).deltas ↔
      r ∈ db.deltas ∧ ¬(r.delta.nonce = nonce ∧ r.delta.status.isParked = true) := by
  have hrows : (if archive then db.archiveParkedDelta nonce now else db).deltas = db.deltas := by
    split
    · exact archiveParkedDelta_deltas nonce now
    · rfl
  simp only [supersedeParked, deleteRow, Table.mem_delete, hrows, ← Bool.not_eq_true, isAt_iff]

/-- The columns of the other tables a row statement leaves alone. -/
structure SameRest (db db' : Db) : Prop where
  state : db'.state = db.state
  metadata : db'.metadata = db.metadata
  proposals : db'.proposals = db.proposals
  executions : db'.executions = db.executions
  leases : db'.leases = db.leases

theorem archiveParkedDelta_rest (db : Db) (nonce : Nonce) (now : Time) :
    SameRest db (db.archiveParkedDelta nonce now) ∧
      (db.archiveParkedDelta nonce now).nextId = db.nextId := by
  unfold archiveParkedDelta
  split
  · split <;> exact ⟨⟨rfl, rfl, rfl, rfl, rfl⟩, rfl⟩
  · exact ⟨⟨rfl, rfl, rfl, rfl, rfl⟩, rfl⟩

theorem supersedeParked_rest (db : Db) (nonce : Nonce) (now : Time) (archive : Bool) :
    SameRest db (db.supersedeParked nonce now archive) ∧
      (db.supersedeParked nonce now archive).nextId = db.nextId := by
  unfold supersedeParked
  split
  · obtain ⟨h, hid⟩ := archiveParkedDelta_rest db nonce now
    exact ⟨⟨h.state, h.metadata, h.proposals, h.executions, h.leases⟩, hid⟩
  · exact ⟨⟨rfl, rfl, rfl, rfl, rfl⟩, rfl⟩

/-- Admitting a delta: the parked row at its nonce makes room, or the nonce is
taken and nothing changed. -/
theorem admit_cases (db : Db) (delta : DeltaObject) (now : Time) (archive : Bool) :
    let db₁ := db.supersedeParked delta.nonce now archive
    (db₁.insertDelta delta = none ∧ db₁ = db) ∨
    ∃ db₂, db₁.insertDelta delta = some db₂ ∧ Inserts db db₂ delta ∧
      Archives db db₂ delta.nonce now archive ∧ SameRest db db₂ := by
  intro db₁
  unfold insertDelta
  obtain ⟨hrest, hid⟩ := supersedeParked_rest db delta.nonce now archive
  split
  · next r hr =>
    obtain ⟨hmem, hn⟩ := rowAt_eq_some.mp hr
    obtain ⟨hmem, hnot⟩ := mem_supersedeParked.mp hmem
    refine .inl ⟨rfl, supersedeParked_eq_self fun r' hr' hn' => ?_⟩
    rw [eq_of_nonce hr' hmem (hn'.trans hn.symm), ← Bool.not_eq_true]
    exact fun hp => hnot ⟨hn, hp⟩
  · next hr =>
    have hparked : ∀ r ∈ db.deltas, r.delta.nonce = delta.nonce → r.delta.status.isParked = true := by
      intro r hmem hn
      by_contra hp
      exact rowAt_eq_none.mp hr r (mem_supersedeParked.mpr ⟨hmem, fun h => hp h.2⟩) hn
    refine .inr ⟨_, rfl, ⟨fun hr hn => hparked _ hr hn, ?_, congrArg (· + 1) hid⟩,
      supersedeParked_archives hparked,
      ⟨hrest.state, hrest.metadata, hrest.proposals, hrest.executions, hrest.leases⟩⟩
    have hfree : db₁.deltas.find? (DeltaRow.column ⟨db₁.nextId, delta⟩) = none := hr
    intro r
    rw [Table.mem_insert hfree, mem_supersedeParked, hid]
    refine or_congr_right (and_congr_right fun hmem => not_congr ?_)
    exact ⟨And.left, fun hn => ⟨hn, hparked r hmem hn⟩⟩

/-- Clearing the flag re-reads the queue. -/
theorem clearPendingFlagIfNone_eq :
    db.clearPendingFlagIfNone =
      db.setMetadata (fun m => { m with hasPendingCandidate := m.hasPendingCandidate && db.hasCandidate }) := by
  unfold clearPendingFlagIfNone setPendingFlag
  cases hc : db.hasCandidate with
  | true =>
    have hkeep : db.metadata.map (fun m => { m with hasPendingCandidate := m.hasPendingCandidate }) =
        db.metadata := by cases db.metadata <;> rfl
    simp only [if_true, Bool.and_true, setMetadata, hkeep]
  | false => simp

/-! ## Candidate transactions -/

/-- The account is neither paused nor released. -/
def InService (db : Db) : Prop :=
  ∃ m, db.metadata = some m ∧ m.pausedAt = none ∧ m.releasedAt = none

/-- `submit_candidate` queued the delta. -/
structure Submitted (delta : DeltaObject) (now : Time) (policy : CandidatePolicy) (db db' : Db) :
    Prop where
  inserts : Inserts db db' delta
  archives : Archives db db' delta.nonce now policy.archiveSuperseded
  inactive : db.activeExecution = none
  gate : ∃ state, db.state = some state ∧
    gateCandidateSubmission state.commitment db.queue delta policy.maxPendingCandidates = none
  metadata : ∃ m, db.metadata = some m ∧ db'.metadata = some { m with hasPendingCandidate := true }
  state : db'.state = db.state
  executions : db'.executions = db.executions
  in_service : db.InService

theorem submitCandidate_cases {delta : DeltaObject} {now : Time} {policy : CandidatePolicy}
    {r : CandidateSubmission} (h : db.submitCandidate delta now policy = some (r, db')) :
    (r ≠ .submitted ∧ db' = db) ∨ (r = .submitted ∧ Submitted delta now policy db db') := by
  unfold submitCandidate at h
  split at h
  · cases h
  next m hm =>
  split at h
  · next refused hr =>
    cases h
    refine .inl ⟨?_, rfl⟩
    rintro rfl
    revert hr
    cases m.releasedAt <;> cases m.pausedAt <;> simp [CandidateSubmission.refusedWhileInactive]
  split at h
  · cases h
  next state hstate =>
  split at h
  · cases h; exact .inl ⟨by simp, rfl⟩
  next hactive =>
  split at h
  · next refused hgate =>
    cases h
    refine .inl ⟨?_, rfl⟩
    rintro rfl
    exact gate_ne_submitted hgate
  next hgate =>
  rcases admit_cases db delta now policy.archiveSuperseded
    with ⟨hnone, heq⟩ | ⟨db₂, hsome, hins, harch, hrest⟩
  · rw [heq] at hnone
    simp only [hnone, heq, Option.some.injEq, Prod.mk.injEq] at h
    obtain ⟨rfl, rfl⟩ := h
    exact .inl ⟨by simp, rfl⟩
  · simp only [hsome, Option.some.injEq, Prod.mk.injEq] at h
    obtain ⟨rfl, rfl⟩ := h
    refine .inr ⟨rfl, ⟨hins.parked, hins.mem, hins.nextId⟩, harch, hactive, ⟨state, hstate, hgate⟩,
      ⟨m, hm, ?_⟩, hrest.state, hrest.executions, m, hm, ?_⟩
    · simp [setPendingFlag, setMetadata, hrest.metadata, hm]
    · cases hp : m.pausedAt <;> cases hr : m.releasedAt <;>
        simp_all [CandidateSubmission.refusedWhileInactive]

/-- `request_candidate_abandon` recorded the intent on a candidate no execution
owns. -/
structure AbandonRecorded (nonce : Nonce) (now : Time) (row : DeltaRow) (db db' : Db) : Prop where
  rewrites : Rewrites db db' row (row.rewrite (·.withAbandonRequested now) id)
  row_nonce : row.delta.nonce = nonce
  candidate : row.delta.status.isCandidate = true
  unowned : db.owningExecution nonce = none
  rest : SameRest db db'

theorem requestCandidateAbandon_cases {nonce : Nonce} {new : Commitment} {now : Time}
    {r : AbandonIntent} (h : db.requestCandidateAbandon nonce new now = some (r, db')) :
    (r ≠ .recorded ∧ db' = db) ∨ (r = .recorded ∧ ∃ row, AbandonRecorded nonce now row db db') := by
  unfold requestCandidateAbandon at h
  split at h
  · cases h
  split at h
  · cases h; exact .inl ⟨by simp, rfl⟩
  next howner =>
  split at h
  · cases h; exact .inl ⟨by simp, rfl⟩
  next row hrow =>
  obtain ⟨hmem, hn⟩ := rowAt_eq_some.mp hrow
  split at h
  · next hc =>
    split at h
    · cases h; exact .inl ⟨by simp, rfl⟩
    · cases h
      exact .inr ⟨rfl, row, updateRow_rewrites hmem hn hc.1, hn, hc.1, howner,
        ⟨rfl, rfl, rfl, rfl, rfl⟩⟩
  · cases h; exact .inl ⟨by simp, rfl⟩

/-- `restore_superseded` wrote the archived delta back over the parked row at
its nonce, which took its place in the archive. -/
structure Restores (delta : DeltaObject) (now : Time) (db db' : Db) : Prop where
  inserts : Inserts db db' delta
  archived : ∃ s ∈ db.superseded, restoreSuperseded.isArchived delta s = true
  mem_superseded : ∀ {s}, s ∈ db'.superseded ↔
    (s ∈ db.superseded ∧ restoreSuperseded.isArchived delta s = false) ∨
      ∃ r ∈ db.deltas, r.delta.nonce = delta.nonce ∧ s = ⟨r.delta, now⟩

theorem restoreSuperseded_cases {delta : DeltaObject} {now : Time}
    (h : db.restoreSuperseded delta now = some db') :
    Restores delta now db db' ∧ SameRest db db' := by
  unfold restoreSuperseded at h
  split at h
  swap
  · cases h
  next hall =>
  split at h
  swap
  · cases h
  next harch =>
  have hparked : ∀ r ∈ db.deltas, r.delta.nonce = delta.nonce → r.delta.status.isParked = true := by
    intro r hr hn
    rw [rowAt_eq_some.mpr ⟨hr, hn⟩] at hall
    simpa using hall
  simp only at h
  -- the archive without the restored delta; from here on it is an admission that archives
  set kept : Db := { db with superseded := db.superseded.filter (fun s =>
    !restoreSuperseded.isArchived delta s) } with hkept
  have hdel : (kept.archiveParkedDelta delta.nonce now).deleteRow delta.nonce (fun _ => true) =
      kept.supersedeParked delta.nonce now true := by
    have hrows : (kept.archiveParkedDelta delta.nonce now).deltas.delete
        (isAt delta.nonce (fun _ => true)) =
        (kept.archiveParkedDelta delta.nonce now).deltas.delete
          (isAt delta.nonce (·.isParked)) := by
      refine Table.delete_congr fun r hr => ?_
      rw [archiveParkedDelta_deltas] at hr
      rw [Bool.eq_iff_iff, isAt_iff, isAt_iff]
      exact and_congr_right fun hn => by simp [hparked r hr hn]
    simp only [supersedeParked, if_true, deleteRow, hrows]
  rw [hdel] at h
  rcases admit_cases kept delta now true
    with ⟨hnone, _⟩ | ⟨db₂, hsome, hins, harch', hrest⟩
  · rw [hnone] at h
    cases h
  · rw [hsome] at h
    cases h
    refine ⟨⟨⟨hins.parked, hins.mem, hins.nextId⟩, by simpa using harch, ?_⟩,
      ⟨hrest.state, hrest.metadata, hrest.proposals, hrest.executions, hrest.leases⟩⟩
    intro s
    rw [harch']
    simp [hkept]

/-- The row a promotion made canonical: the one it verified, or the archived
one it wrote back. -/
inductive Canonicalizes (p : CandidatePromotion) (db db' : Db) : Prop where
  | flips (row : DeltaRow) (nonce : row.delta.nonce = p.delta.nonce)
      (matched : p.source.matches row.delta.status = true) (source : p.source ≠ .superseded)
      (rewrites : Rewrites db db' row
        (row.rewrite (fun _ => p.delta.status) (fun _ => p.delta.newCommitment)))
  | restores (source : p.source = .superseded) (restored : Restores p.delta p.now db db')

/-- Only the row tables matter. -/
theorem Canonicalizes.congr {p : CandidatePromotion} {db₁ : Db} (h : Canonicalizes p db db')
    (hd : db₁.deltas = db'.deltas) (hs : db₁.superseded = db'.superseded)
    (hid : db₁.nextId = db'.nextId) : Canonicalizes p db db₁ := by
  cases h with
  | flips row hn hm hsrc hr =>
    exact .flips row hn hm hsrc ⟨hr.mem_row, hd ▸ hr.mem, hid.trans hr.nextId, hs.trans hr.superseded⟩
  | restores hsrc hr =>
    exact .restores hsrc ⟨⟨hr.inserts.parked, hd ▸ hr.inserts.mem, hid.trans hr.inserts.nextId⟩,
      hr.archived, hs ▸ hr.mem_superseded⟩

theorem writeCanonical_cases {p : CandidatePromotion} (h : db.writeCanonical p = some db') :
    Canonicalizes p db db' ∧ SameRest db db' := by
  unfold writeCanonical at h
  split at h
  · next hs =>
    obtain ⟨hr, hrest⟩ := restoreSuperseded_cases h
    exact ⟨.restores hs hr, hrest⟩
  next hs =>
  split at h
  · cases h
  next row hrow =>
  obtain ⟨hmem, hn⟩ := rowAt_eq_some.mp hrow
  split at h
  · next hm =>
    cases h
    exact ⟨.flips row hn hm hs (updateRow_rewrites hmem hn hm), ⟨rfl, rfl, rfl, rfl, rfl⟩⟩
  · cases h

/-- The active execution `e` was recorded as committed: its evidence names the
nonce and commitment. -/
structure Commits (nonce : Nonce) (promoted : Commitment) (now : Time) (db db' : Db) : Prop where
  settles : ∃ e evidence, db.activeExecution = some e ∧ e.evidence = some evidence ∧
    evidence.candidateNonce = nonce ∧ eqIgnoreAsciiCase evidence.expectedCommitment promoted = true ∧
    e.outcome = none ∧ db'.executions = (db.updateExecution e.reservation.proposalId
      e.reservation.attempt (·.settleAs .committed now)).executions

theorem Commits.congr {nonce : Nonce} {promoted : Commitment} {now : Time} {db₁ db₁' : Db}
    (h : Commits nonce promoted now db db') (h₁ : db₁.executions = db.executions)
    (h₁' : db₁'.executions = db'.executions) : Commits nonce promoted now db₁ db₁' := by
  obtain ⟨e, evidence, hactive, hev, hnonce, heq, hout, hex⟩ := h.settles
  refine ⟨e, evidence, ?_, hev, hnonce, heq, hout, ?_⟩
  · rw [activeExecution, h₁]
    exact hactive
  · rw [h₁', hex]
    simp only [updateExecution, h₁]

theorem commitPromotedExecution_cases {nonce : Nonce} {promoted : Commitment} {now : Time}
    {settled : Bool} (h : db.commitPromotedExecution nonce promoted now = some (settled, db')) :
    (db' = db ∧ ∀ {e evidence}, db.owningExecution nonce = some e → e.evidence = some evidence →
      eqIgnoreAsciiCase evidence.expectedCommitment promoted ≠ true) ∨
    (settled = true ∧ Commits nonce promoted now db db' ∧
      ∃ executions, db' = { db with executions := executions }) := by
  unfold commitPromotedExecution at h
  split at h
  · next hnone =>
    cases h
    exact .inl ⟨rfl, fun he => by rw [hnone] at he; cases he⟩
  next e he =>
  have howner := he
  simp only [owningExecution, Option.filter_eq_some_iff, ExecutionRecord.ownsCandidate,
    Bool.and_eq_true, Option.any_eq_true, beq_iff_eq] at he
  obtain ⟨hactive, _, evidence', hev', hnonce⟩ := he
  split at h
  · next hnone => rw [hnone] at hev'; cases hev'
  next evidence hev =>
  obtain rfl : evidence' = evidence := Option.some.inj (hev'.symm.trans hev)
  split at h
  swap
  · next hne =>
    cases h
    refine .inl ⟨rfl, fun he' hev'' => ?_⟩
    rw [howner] at he'
    cases he'
    rw [hev] at hev''
    cases hev''
    exact hne
  next heq =>
  unfold settle at h
  split at h
  · cases h
  next hout =>
  cases h
  exact .inr ⟨rfl, ⟨e, evidence', hactive, hev, hnonce, heq, hout, rfl⟩, _, rfl⟩

/-- `promote_candidate` applied. -/
structure Promoted (p : CandidatePromotion) (db db' : Db) : Prop where
  base : ∃ state, db.state = some state ∧
    (state.commitment = p.delta.prevCommitment ∨ state.commitment = p.state.commitment)
  row : Canonicalizes p db db'
  state : db'.state = some p.state.asStored
  metadata : ∃ m, db.metadata = some m ∧ db'.metadata = some
    ⟨p.newAuth.getD m.auth, m.hasPendingCandidate && db'.hasCandidate, m.pausedAt, m.releasedAt⟩
  executions : db'.executions = db.executions ∨ Commits p.delta.nonce p.state.commitment p.now db db'
  commits : ∀ {e evidence}, db.owningExecution p.delta.nonce = some e → e.evidence = some evidence →
    eqIgnoreAsciiCase evidence.expectedCommitment p.state.commitment = true →
    Commits p.delta.nonce p.state.commitment p.now db db'

theorem promoteCandidate_cases {current : Bool} {p : CandidatePromotion} {r : PromoteWrite}
    (h : db.promoteCandidate current p = some (r, db')) :
    ((∀ settled, r ≠ .applied settled) ∧ db' = db) ∨
    (∃ settled, r = .applied settled ∧ Promoted p db db') := by
  unfold promoteCandidate at h
  split at h
  · cases h
  next m hm =>
  split at h
  swap
  · cases h; exact .inl ⟨by simp, rfl⟩
  split at h
  · cases h; exact .inl ⟨by simp, rfl⟩
  next db₁ hw =>
  obtain ⟨hrow, hrest⟩ := writeCanonical_cases hw
  split at h
  · cases h; exact .inl ⟨by simp, rfl⟩
  next state hstate =>
  split at h
  swap
  · cases h; exact .inl ⟨by simp, rfl⟩
  next hbase =>
  simp only at h
  split at h
  · cases h
  next settled db₄ hcommit =>
  cases h
  -- everything after the row is written leaves the row tables alone
  obtain ⟨db₃, hcommit, hst₃, hd₃, hs₃, hid₃, hex₃, hm₃⟩ : ∃ db₃ : Db,
      db₃.commitPromotedExecution p.delta.nonce p.state.commitment p.now = some (settled, db₄) ∧
      db₃.state = some p.state.asStored ∧ db₃.deltas = db₁.deltas ∧ db₃.superseded = db₁.superseded ∧
      db₃.nextId = db₁.nextId ∧ db₃.executions = db₁.executions ∧
      db₃.metadata = some { m with auth := p.newAuth.getD m.auth } := by
    have hmeta : db₁.metadata = some m := hrest.metadata.trans hm
    refine ⟨_, hcommit, ?_⟩
    cases p.newAuth <;> simp [setMetadata, hmeta]
  have h₄ : db₄.deltas = db₃.deltas ∧ db₄.superseded = db₃.superseded ∧ db₄.nextId = db₃.nextId ∧
      db₄.state = db₃.state ∧ db₄.metadata = db₃.metadata ∧
      ((db₄.executions = db₃.executions ∧ ∀ {e evidence}, db₃.owningExecution p.delta.nonce = some e →
        e.evidence = some evidence →
        eqIgnoreAsciiCase evidence.expectedCommitment p.state.commitment ≠ true) ∨
        Commits p.delta.nonce p.state.commitment p.now db₃ db₄) := by
    obtain ⟨rfl, hnot⟩ | ⟨_, hc, ex, rfl⟩ := commitPromotedExecution_cases hcommit
    · exact ⟨rfl, rfl, rfl, rfl, rfl, .inl ⟨rfl, hnot⟩⟩
    · exact ⟨rfl, rfl, rfl, rfl, rfl, .inr hc⟩
  obtain ⟨hd₄, hs₄, hid₄, hst₄, hm₄, hex₄⟩ := h₄
  have hex : db₃.executions = db.executions := hex₃.trans hrest.executions
  have hcommits : ∀ {db₅ : Db}, db₅.executions = db₄.executions →
      Commits p.delta.nonce p.state.commitment p.now db₃ db₄ →
      Commits p.delta.nonce p.state.commitment p.now db db₅ :=
    fun h₅ hc => hc.congr hex.symm h₅
  refine .inr ⟨settled, rfl, ⟨state, hrest.state ▸ hstate, hbase⟩, ?_, ?_, ⟨m, hm, ?_⟩, ?_, ?_⟩
  · rw [clearPendingFlagIfNone_eq]
    exact hrow.congr (hd₄.trans hd₃) (hs₄.trans hs₃) (hid₄.trans hid₃)
  · rw [clearPendingFlagIfNone_eq]
    exact hst₄.trans hst₃
  · rw [clearPendingFlagIfNone_eq]
    simp only [setMetadata, hm₄, hm₃, Option.map_some]
    rfl
  · rw [clearPendingFlagIfNone_eq]
    rcases hex₄ with ⟨hex₄, _⟩ | hc
    · exact .inl (hex₄.trans hex)
    · exact .inr (hcommits rfl hc)
  · intro e evidence howner hev heq
    rw [clearPendingFlagIfNone_eq]
    rcases hex₄ with ⟨_, hnot⟩ | hc
    · have howner₃ : db₃.owningExecution p.delta.nonce = some e := by
        simpa only [owningExecution, activeExecution, hex] using howner
      exact absurd heq (hnot howner₃ hev)
    · exact hcommits rfl hc

/-- `discard_candidate` deleted the row at the nonce. -/
structure Discarded (nonce : Nonce) (kind : DeltaStatusKind) (row : DeltaRow) (db db' : Db) :
    Prop where
  deletes : Deletes db db' row
  row_nonce : row.delta.nonce = nonce
  row_kind : row.delta.status.kind = kind
  unprotected : kind = .candidate → db.owningExecution nonce = none
  metadata : db'.metadata = db.metadata.map (fun m =>
    { m with hasPendingCandidate := m.hasPendingCandidate && db'.hasCandidate })
  state : db'.state = db.state
  executions : db'.executions = db.executions

theorem discardCandidate_cases {current : Bool} {nonce : Nonce} {kind : DeltaStatusKind}
    {r : CanonicalWrite} (h : db.discardCandidate current nonce kind = some (r, db')) :
    (r ≠ .applied ∧ db' = db) ∨ (r = .applied ∧ ∃ row, Discarded nonce kind row db db') := by
  unfold discardCandidate at h
  split at h
  · cases h
  split at h
  swap
  · cases h; exact .inl ⟨by simp, rfl⟩
  split at h
  · cases h; exact .inl ⟨by simp, rfl⟩
  next hprot =>
  split at h
  · cases h; exact .inl ⟨by simp, rfl⟩
  next row hrow =>
  obtain ⟨hmem, hn⟩ := rowAt_eq_some.mp hrow
  split at h
  swap
  · cases h; exact .inl ⟨by simp, rfl⟩
  next hkind =>
  cases h
  refine .inr ⟨rfl, row, ?_, hn, hkind, ?_, ?_, ?_, ?_⟩
  · rw [clearPendingFlagIfNone_eq]
    have hd := deleteRow_deletes (p := (·.kind == kind)) hmem hn (by simp [hkind])
    exact ⟨hd.mem_row, hd.mem, hd.nextId, hd.superseded⟩
  · intro hc
    by_contra hne
    exact hprot ⟨hc, Option.isSome_iff_ne_none.mpr hne⟩
  all_goals
    rw [clearPendingFlagIfNone_eq]
    rfl

/-- `update_candidate_status` rewrote the status of the candidate at the
nonce. -/
structure Updated (nonce : Nonce) (status : DeltaStatus) (row : DeltaRow) (db db' : Db) : Prop where
  rewrites : Rewrites db db' row (row.rewrite
    (fun _ => status.withAbandonRequestPreservedFrom row.delta.status.abandonRequestedAt) id)
  row_nonce : row.delta.nonce = nonce
  candidate : row.delta.status.isCandidate = true
  unprotected : status.kind ≠ .candidate → db.owningExecution nonce = none
  unrequested : status.kind = .retained → row.delta.status.abandonRequestedAt = none
  rest : SameRest db db'

theorem updateCandidateStatus_cases {current : Bool} {nonce : Nonce} {status : DeltaStatus}
    {r : CanonicalWrite} (h : db.updateCandidateStatus current nonce status = some (r, db')) :
    (r ≠ .applied ∧ db' = db) ∨ (r = .applied ∧ ∃ row, Updated nonce status row db db') := by
  unfold updateCandidateStatus at h
  split at h
  · cases h
  split at h
  swap
  · cases h; exact .inl ⟨by simp, rfl⟩
  split at h
  · cases h; exact .inl ⟨by simp, rfl⟩
  next hprot =>
  split at h
  · cases h; exact .inl ⟨by simp, rfl⟩
  next row hrow =>
  obtain ⟨hmem, hn⟩ := rowAt_eq_some.mp hrow
  split at h
  swap
  · cases h; exact .inl ⟨by simp, rfl⟩
  next hc =>
  simp only at h
  split at h
  · cases h; exact .inl ⟨by simp, rfl⟩
  next hint =>
  cases h
  refine .inr ⟨rfl, row, updateRow_rewrites hmem hn hc, hn, hc, ?_, ?_, ⟨rfl, rfl, rfl, rfl, rfl⟩⟩
  · intro hk
    by_contra hne
    exact hprot ⟨hk, Option.isSome_iff_ne_none.mpr hne⟩
  · intro hk
    by_contra hne
    exact hint ⟨hk, Option.isSome_iff_ne_none.mpr hne⟩

/-! ## Execution transactions -/

theorem activeExecution_eq_some {e : ExecutionRecord} (h : db.activeExecution = some e) :
    e ∈ db.executions ∧ e.isActive = true :=
  ⟨List.mem_of_find?_eq_some h, List.find?_some h⟩

theorem activeExecution_eq_none :
    db.activeExecution = none ↔ ∀ e ∈ db.executions, e.isActive = false := by
  simp [activeExecution, List.find?_eq_none]

/-- A new attempt was reserved. -/
structure Reserved (record : ExecutionRecord) (db db' : Db) : Prop where
  inactive : db.activeExecution = none
  idle : db.hasCandidate = false
  fresh : ∀ e ∈ db.executions,
    e.isAttempt record.reservation.proposalId record.reservation.attempt = false
  active : record.isActive = true
  evidence : record.evidence = none
  outcome : record.outcome = none
  eq : db' = { db with executions := db.executions ++ [record] }

theorem createExecutionReservation_cases {current : Bool} {proposalId : String}
    {fence : LeaseFence} {expiresAt : Time} {r : ReservationWrite}
    (h : db.createExecutionReservation current proposalId fence expiresAt = some (r, db')) :
    ((∀ attempt, r ≠ .created attempt) ∧ db' = db) ∨
    ∃ record, r = .created record.reservation.attempt ∧
      record.reservation.proposalId = proposalId ∧ record.reservation.fence = fence ∧
      Reserved record db db' := by
  unfold createExecutionReservation at h
  split at h
  · cases h
  split at h
  swap
  · cases h; exact .inl ⟨nofun, rfl⟩
  split at h
  · cases h; exact .inl ⟨nofun, rfl⟩
  next hactive =>
  split at h
  · cases h; exact .inl ⟨nofun, rfl⟩
  next hcand =>
  split at h
  swap
  · cases h; exact .inl ⟨nofun, rfl⟩
  cases h
  refine .inr ⟨_, rfl, rfl, rfl, hactive, by simpa using hcand, ?_, rfl, rfl, rfl, rfl⟩
  intro e he
  rw [← Bool.not_eq_true]
  simp only [ExecutionRecord.isAttempt, Bool.and_eq_true, beq_iff_eq, not_and]
  intro hp
  have hle : e.reservation.attempt ≤ ((db.executions.filter (fun x =>
      x.reservation.proposalId == proposalId)).map (·.reservation.attempt)).foldr max 0 :=
    le_foldr_max (List.mem_map.mpr ⟨e, List.mem_filter.mpr ⟨he, by simpa using hp⟩, rfl⟩)
  omega

/-- A change of an execution's holder, deadline or phase. -/
def KeepsAttempt (f : ExecutionRecord → ExecutionRecord) : Prop :=
  ∀ e, (f e).evidence = e.evidence ∧ (f e).outcome = e.outcome ∧
    (f e).reservation.releasedAt = e.reservation.releasedAt ∧
    (f e).reservation.proposalId = e.reservation.proposalId ∧
    (f e).reservation.attempt = e.reservation.attempt

/-- The active execution changed holder, deadline or phase. -/
structure Renewed (db db' : Db) : Prop where
  renews : ∃ e f, db.activeExecution = some e ∧ KeepsAttempt f ∧
    db' = db.updateExecution e.reservation.proposalId e.reservation.attempt f

theorem renewExecutionReservation_cases {current : Bool} {fence : LeaseFence} {expiresAt : Time}
    {phase : ExecutionPhase} {r : ReservationUpdate}
    (h : db.renewExecutionReservation current fence expiresAt phase = some (r, db')) :
    (r ≠ .applied ∧ db' = db) ∨ (r = .applied ∧ ∃ e, db.activeExecution = some e ∧
      e.reservation.fence = fence ∧ db' = db.updateExecution e.reservation.proposalId
        e.reservation.attempt (·.renewTo expiresAt phase)) := by
  unfold renewExecutionReservation at h
  split at h
  · cases h
  split at h
  · cases h; exact .inl ⟨nofun, rfl⟩
  next e he =>
  split at h
  · next howns =>
    cases h
    simp only [ownsLive, Bool.and_eq_true, beq_iff_eq] at howns
    exact .inr ⟨rfl, e, he, howns.1, rfl⟩
  · cases h; exact .inl ⟨nofun, rfl⟩

theorem claimExecutionReservation_cases {current : Bool} {expected claimant : LeaseFence}
    {expiresAt : Time} {r : ClaimWrite}
    (h : db.claimExecutionReservation current expected claimant expiresAt = some (r, db')) :
    db' = db ∨ ∃ e, db.activeExecution = some e ∧ db' = db.updateExecution
      e.reservation.proposalId e.reservation.attempt (·.claimFor claimant expiresAt) := by
  unfold claimExecutionReservation at h
  split at h
  · cases h
  split at h
  · cases h; exact .inl rfl
  next e he =>
  split at h
  · cases h; exact .inl rfl
  split at h
  · cases h; exact .inl rfl
  cases h
  exact .inr ⟨e, he, rfl⟩

/-- `admit_execution_candidate` queued the execution's delta and recorded its
evidence. -/
structure Admitted (a : CandidateAdmission) (db db' : Db) : Prop where
  inserts : Inserts db db' a.delta
  archives : Archives db db' a.delta.nonce a.now a.archiveParked
  describes : a.evidence.candidateNonce = a.delta.nonce ∧
    a.evidence.baseCommitment = a.delta.prevCommitment
  active : ∃ e, db.activeExecution = some e ∧ e.evidence = none ∧
    e.reservation.proposalId = a.proposalId ∧ e.reservation.attempt = a.attempt
  base : ∃ state, db.state = some state ∧ state.commitment = a.delta.prevCommitment
  idle : db.hasCandidate = false
  narrow : 0 ≤ nonceColumn a.delta.nonce
  executions : db'.executions =
    (db.updateExecution a.proposalId a.attempt (·.admitWith a.evidence)).executions
  metadata : ∃ m, db.metadata = some m ∧ db'.metadata = some { m with hasPendingCandidate := true }
  state : db'.state = db.state
  in_service : db.InService

theorem admitExecutionCandidate_cases {current : Bool} {a : CandidateAdmission} {r : AdmissionWrite}
    (h : db.admitExecutionCandidate current a = some (r, db')) :
    (r ≠ .admitted ∧ db' = db) ∨ (r = .admitted ∧ Admitted a db db') := by
  unfold admitExecutionCandidate at h
  split at h
  swap
  · cases h
  next hdesc =>
  split at h
  · cases h
  next m hm =>
  split at h
  · cases h; exact .inl ⟨by simp, rfl⟩
  next e he =>
  split at h
  · cases h; exact .inl ⟨by simp, rfl⟩
  next hauth =>
  split at h
  swap
  · cases h; exact .inl ⟨by simp, rfl⟩
  split at h
  · cases h
  next state hstate =>
  split at h
  · cases h; exact .inl ⟨by simp, rfl⟩
  next hbase =>
  split at h
  · cases h; exact .inl ⟨by simp, rfl⟩
  next hopen =>
  split at h
  · cases h; exact .inl ⟨by simp, rfl⟩
  next hidle =>
  simp only at h
  rcases admit_cases db a.delta a.now a.archiveParked
    with ⟨hnone, heq⟩ | ⟨db₂, hsome, hins, harch, hrest⟩
  · rw [heq] at hnone
    simp only [hnone, heq, Option.some.injEq, Prod.mk.injEq] at h
    obtain ⟨rfl, rfl⟩ := h
    exact .inl ⟨by simp, rfl⟩
  simp only [hsome] at h
  split at h
  · cases h
  next hnarrow =>
  cases h
  simp only [not_or, Bool.not_eq_false, ExecutionReservation.authorizes, Bool.and_eq_true,
    beq_iff_eq, Option.not_isSome_iff_eq_none] at hauth
  simp only [CandidateAdmission.evidenceDescribesCandidate, Bool.and_eq_true, beq_iff_eq] at hdesc
  refine .inr ⟨rfl, ⟨hins.parked, hins.mem, hins.nextId⟩, harch, hdesc,
    ⟨e, he, hauth.2, hauth.1.1.2, hauth.1.2⟩, ⟨state, hstate, by simpa using hbase⟩,
    by simpa using hidle, by simpa using hnarrow, ?_, ⟨m, hm, ?_⟩, hrest.state,
    m, hm, by simpa using hopen⟩
  · simp only [setPendingFlag, setMetadata, updateExecution, hrest.executions]
  · simp [setPendingFlag, setMetadata, updateExecution, hrest.metadata, hm]

/-- `settle_promoted_execution` recorded the active execution as committed. -/
structure SettledPromoted (now : Time) (db db' : Db) : Prop where
  settles : ∃ e evidence row state, db.activeExecution = some e ∧ e.evidence = some evidence ∧
    e.outcome = none ∧ db.rowAt evidence.candidateNonce = some row ∧
    row.delta.status.isCanonical = true ∧ db.state = some state ∧
    eqIgnoreAsciiCase state.commitment evidence.expectedCommitment = true ∧
    db' = db.updateExecution e.reservation.proposalId e.reservation.attempt
      (·.settleAs .committed now)

theorem settlePromotedExecution_cases {current : Bool} {fence : LeaseFence} {now : Time}
    {r : SettleWrite} (h : db.settlePromotedExecution current fence now = some (r, db')) :
    db' = db ∨ SettledPromoted now db db' := by
  unfold settlePromotedExecution at h
  split at h
  · cases h
  split at h
  · cases h; exact .inl rfl
  next e he =>
  split at h
  swap
  · cases h; exact .inl rfl
  split at h
  · cases h; exact .inl rfl
  next evidence hev =>
  split at h
  · cases h
  next state hstate =>
  split at h
  swap
  · cases h; exact .inl rfl
  next hcond =>
  obtain ⟨row, hrow, hcan⟩ : ∃ row, db.rowAt evidence.candidateNonce = some row ∧
      row.delta.status.isCanonical = true := by simpa [Option.any_eq_true] using hcond.1
  unfold settle at h
  split at h
  · cases h
  next hout =>
  cases h
  exact .inr ⟨e, evidence, row, state, he, hev, hout, hrow, hcan, hstate, hcond.2, rfl⟩

/-- `resolve_execution` or `fail_execution` recorded a failure. -/
structure Resolved (resolution : ExecutionResolution) (crossed : Bool) (db db' : Db) : Prop where
  fails : ∃ e, db.attemptRecord resolution.proposalId resolution.attempt = some e ∧
    e.outcome = none ∧ e.boundaryCrossed = crossed ∧
    db'.executions = (db.updateExecution e.reservation.proposalId e.reservation.attempt
      (·.settleAs (.failed resolution.failure) resolution.now)).executions ∧
    ∀ {r}, r ∈ db'.deltas ↔ r ∈ db.deltas ∧
      ¬(e.evidence.any (·.candidateNonce == r.delta.nonce) = true ∧
        r.delta.status.isCandidate = true)
  nextId : db'.nextId = db.nextId
  superseded : db'.superseded = db.superseded
  state : db'.state = db.state
  metadata : db'.metadata = db.metadata.map (fun m =>
    { m with hasPendingCandidate := m.hasPendingCandidate && (!crossed || db'.hasCandidate) })

theorem resolveExecution_cases {current : Bool} {resolution : ExecutionResolution} {crossed : Bool}
    {r : ResolveWrite} (h : db.resolveExecution current resolution crossed = some (r, db')) :
    db' = db ∨ Resolved resolution crossed db db' := by
  unfold resolveExecution at h
  split at h
  · cases h
  split at h
  · cases h; exact .inl rfl
  next e he =>
  split at h
  · cases h; exact .inl rfl
  next hout =>
  split at h
  · cases h; exact .inl rfl
  split at h
  swap
  · cases h; exact .inl rfl
  split at h
  · cases h; exact .inl rfl
  next hside =>
  simp only [Option.map_eq_some_iff, settle, Prod.mk.injEq] at h
  obtain ⟨db₂, hset, rfl, rfl⟩ := h
  simp only [Option.not_isSome_iff_eq_none] at hout
  simp only [hout, Option.some.injEq] at hset
  subst hset
  simp only [ne_eq, not_not] at hside
  refine .inr ?_
  cases hev : e.evidence with
  | none =>
    have hcrossed : crossed = false := by
      rw [← hside, ExecutionRecord.boundaryCrossed, hev]
      rfl
    refine ⟨⟨e, he, hout, hside, rfl, ?_⟩, rfl, rfl, rfl, ?_⟩
    · intro r
      simp [hev, updateExecution]
    · subst hcrossed
      simp only [updateExecution, Bool.not_false, Bool.true_or, Bool.and_true]
      cases db.metadata <;> rfl
  | some evidence =>
    have hcrossed : crossed = true := by
      rw [← hside, ExecutionRecord.boundaryCrossed, hev]
      rfl
    simp only [clearPendingFlagIfNone_eq]
    refine ⟨⟨e, he, hout, hside, ?_, ?_⟩, ?_, ?_, ?_, ?_⟩
    · simp only [updateExecution, setMetadata, deleteRow]
      split <;> rfl
    · intro r
      have hmem : r ∈ (db.deleteRow evidence.candidateNonce (·.isCandidate)).deltas ↔
          r ∈ db.deltas ∧ ¬(evidence.candidateNonce = r.delta.nonce ∧
            r.delta.status.isCandidate = true) := by
        rw [deleteRow, Table.mem_delete, ← Bool.not_eq_true, isAt_iff, eq_comm]
      simp only [updateExecution, setMetadata, hev, Option.any_some, beq_iff_eq, ← hmem]
      split <;> rfl
    · simp only [updateExecution, setMetadata]
      split <;> rfl
    · simp only [updateExecution, setMetadata]
      split <;> rfl
    · simp only [updateExecution, setMetadata]
      split <;> rfl
    · subst hcrossed
      simp only [updateExecution, setMetadata, deleteRow, Bool.not_true, Bool.false_or]
      split <;> rfl

end Db
end Guardian
