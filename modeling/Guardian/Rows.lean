import Guardian.PassCalls

/- Where the rows of `deltas` come from. `Effect.row_cases` says it once for
   every call: a row that is there afterwards was there before, was queued, was
   rewritten in place, or was made canonical by a promotion. -/
namespace Guardian

open Interleaving

/-- The same delta, whatever its status. -/
structure SameDelta (d d' : DeltaObject) : Prop where
  nonce : d.nonce = d'.nonce
  prevCommitment : d.prevCommitment = d'.prevCommitment
  newCommitment : d.newCommitment = d'.newCommitment
  deltaPayload : d.deltaPayload = d'.deltaPayload

instance (d d' : DeltaObject) : Decidable (SameDelta d d') :=
  decidable_of_iff (d.nonce = d'.nonce ∧ d.prevCommitment = d'.prevCommitment ∧
      d.newCommitment = d'.newCommitment ∧ d.deltaPayload = d'.deltaPayload)
    ⟨fun h => ⟨h.1, h.2.1, h.2.2.1, h.2.2.2⟩, fun h => ⟨h.1, h.2, h.3, h.4⟩⟩

theorem SameDelta.refl (d : DeltaObject) : SameDelta d d := ⟨rfl, rfl, rfl, rfl⟩

theorem SameDelta.symm {d d' : DeltaObject} (h : SameDelta d d') : SameDelta d' d :=
  ⟨h.nonce.symm, h.prevCommitment.symm, h.newCommitment.symm, h.deltaPayload.symm⟩

theorem SameDelta.trans {d d' d'' : DeltaObject} (h : SameDelta d d') (h' : SameDelta d' d'') :
    SameDelta d d'' :=
  ⟨h.nonce.trans h'.nonce, h.prevCommitment.trans h'.prevCommitment,
    h.newCommitment.trans h'.newCommitment, h.deltaPayload.trans h'.deltaPayload⟩

theorem Carries.same {d delta : DeltaObject} (h : Carries d delta) : SameDelta d delta :=
  ⟨h.1, h.2.1, h.2.2.1, h.2.2.2.1⟩

/-- A status written in place leaves the delta alone. -/
theorem rewrite_same (row : DeltaRow) (status : DeltaStatus → DeltaStatus) :
    SameDelta (row.rewrite status id).delta row.delta := ⟨rfl, rfl, rfl, rfl⟩

/-- A call that queued a delta: a client's, or an execution's. -/
inductive Queued (db db' : Db) : Op → DeltaObject → Prop where
  | submitted {delta : DeltaObject} {now : Time} {policy : CandidatePolicy}
      (h : Db.Submitted delta now policy db db') :
      Queued db db' (.write (.submitCandidate delta now policy)) delta
  | admitted {a : CandidateAdmission} (h : Db.Admitted a db db') :
      Queued db db' (.commit (.admitExecutionCandidate a)) a.delta

namespace Queued
variable {db db' : Db} {op : Op} {delta : DeltaObject}

theorem inserts (h : Queued db db' op delta) : Db.Inserts db db' delta := by
  cases h with
  | submitted h | admitted h => exact h.inserts

theorem metadata (h : Queued db db' op delta) :
    ∃ m, db.metadata = some m ∧ db'.metadata = some { m with hasPendingCandidate := true } := by
  cases h with
  | submitted h | admitted h => exact h.metadata

/-- What is queued is a fresh candidate that leads from its base. -/
theorem queues {net : Network} {cfg : Config} (h : Queued db db' op delta)
    (hfits : op.Fits net cfg) : Queues net delta := by
  cases h with
  | submitted => exact hfits.2
  | admitted => exact hfits.2.1

end Queued

/-- Where a row that is there after a call comes from. -/
inductive RowFrom (db db' : Db) (op : Op) (r : DeltaRow) : Prop where
  | kept (mem : r ∈ db.deltas)
  | queued {delta : DeltaObject} (queued : Queued db db' op delta) (eq : r = ⟨db.nextId, delta⟩)
  | abandoned {nonce : Nonce} {new : Commitment} {now : Time} {row : DeltaRow}
      (call : op = .write (.requestCandidateAbandon nonce new now))
      (recorded : Db.AbandonRecorded nonce now row db db')
      (eq : r = row.rewrite (·.withAbandonRequested now) id)
  | updated {nonce : Nonce} {status : DeltaStatus} {snapshot : DeltaObject} {row : DeltaRow}
      (call : op = .commit (.updateCandidateStatus nonce status snapshot))
      (updated : Db.Updated nonce status row db db')
      (eq : r = row.rewrite
        (fun _ => status.withAbandonRequestPreservedFrom row.delta.status.abandonRequestedAt) id)
  | flipped {p : CandidatePromotion} {row : DeltaRow} (call : op = .commit (.promoteCandidate p))
      (promoted : Db.Promoted p db db') (mem : row ∈ db.deltas)
      (nonce : row.delta.nonce = p.delta.nonce)
      (matched : p.source.matches row.delta.status = true) (source : p.source ≠ .superseded)
      (eq : r = row.rewrite (fun _ => p.delta.status) (fun _ => p.delta.newCommitment))
  | restored {p : CandidatePromotion} (call : op = .commit (.promoteCandidate p))
      (promoted : Db.Promoted p db db') (source : p.source = .superseded)
      (restores : Db.Restores p.delta p.now db db') (eq : r = ⟨db.nextId, p.delta⟩)

/-- Every row after a call has one of these origins. -/
theorem Effect.row_cases {pid : Nat} {op : Op} {w w' : World} (h : Effect pid w op w')
    {r : DeltaRow} (hr : r ∈ w'.db.deltas) : RowFrom w.db w'.db op r := by
  cases h with
  | idle | read | began | rolledBack | asked | returned => exact .kept hr
  | stateSubmitted | stateReplaced | metadataCreated | pruned | leased => exact .kept hr
  | submitted h =>
    rcases h.inserts.mem.mp hr with rfl | ⟨hr, _⟩
    · exact .queued (.submitted h) rfl
    · exact .kept hr
  | admitted h =>
    rcases h.inserts.mem.mp hr with rfl | ⟨hr, _⟩
    · exact .queued (.admitted h) rfl
    · exact .kept hr
  | abandonRecorded h =>
    rcases h.rewrites.mem.mp hr with rfl | ⟨hr, _⟩
    · exact .abandoned rfl h rfl
    · exact .kept hr
  | updated h =>
    rcases h.rewrites.mem.mp hr with rfl | ⟨hr, _⟩
    · exact .updated rfl h rfl
    · exact .kept hr
  | authSet =>
    simp only [Db.setMetadataRow] at hr
    split at hr <;> exact .kept hr
  | flagCleared =>
    rw [Db.clearPendingFlagIfNone_eq] at hr
    exact .kept hr
  | plain h => exact .kept (h.deltas ▸ hr)
  | promoted h =>
    rcases h.row with ⟨row, hn, hm, hsource, hrw⟩ | ⟨hsource, hres⟩
    · rcases hrw.mem.mp hr with rfl | ⟨hr, _⟩
      · exact .flipped rfl h hrw.mem_row hn hm hsource rfl
      · exact .kept hr
    · rcases hres.inserts.mem.mp hr with rfl | ⟨hr, _⟩
      · exact .restored rfl h hsource hres rfl
      · exact .kept hr
  | discarded h => exact .kept (h.deletes.mem.mp hr).1
  | reserved h => exact .kept (by rw [h.eq] at hr; exact hr)
  | renewed h =>
    obtain ⟨_, _, _, _, heq⟩ := h.renews
    exact .kept (by rw [heq] at hr; exact hr)
  | settled h =>
    obtain ⟨_, _, _, _, _, _, _, _, _, _, _, heq⟩ := h.settles
    exact .kept (by rw [heq] at hr; exact hr)
  | resolved h =>
    obtain ⟨_, _, _, _, _, hmem⟩ := h.fails
    exact .kept (hmem.mp hr).1

/-- What becomes of a row that was there before a call. -/
inductive RowTo (db db' : Db) (op : Op) (r : DeltaRow) : Prop where
  | kept (mem : r ∈ db'.deltas)
  | superseded {delta : DeltaObject} (queued : Queued db db' op delta)
      (nonce : r.delta.nonce = delta.nonce) (parked : r.delta.status.isParked = true)
  | abandoned {nonce : Nonce} {new : Commitment} {now : Time}
      (call : op = .write (.requestCandidateAbandon nonce new now))
      (recorded : Db.AbandonRecorded nonce now r db db')
      (mem : r.rewrite (·.withAbandonRequested now) id ∈ db'.deltas)
  | updated {nonce : Nonce} {status : DeltaStatus} {snapshot : DeltaObject}
      (call : op = .commit (.updateCandidateStatus nonce status snapshot))
      (updated : Db.Updated nonce status r db db')
      (mem : r.rewrite (fun _ =>
        status.withAbandonRequestPreservedFrom r.delta.status.abandonRequestedAt) id ∈ db'.deltas)
  | flipped {p : CandidatePromotion} (call : op = .commit (.promoteCandidate p))
      (promoted : Db.Promoted p db db') (nonce : r.delta.nonce = p.delta.nonce)
      (matched : p.source.matches r.delta.status = true) (source : p.source ≠ .superseded)
      (mem : r.rewrite (fun _ => p.delta.status) (fun _ => p.delta.newCommitment) ∈ db'.deltas)
  | replaced {p : CandidatePromotion} (call : op = .commit (.promoteCandidate p))
      (promoted : Db.Promoted p db db') (restores : Db.Restores p.delta p.now db db')
      (nonce : r.delta.nonce = p.delta.nonce) (parked : r.delta.status.isParked = true)
  | discarded {nonce : Nonce} {kind : DeltaStatusKind} {snapshot : DeltaObject}
      (call : op = .commit (.discardCandidate nonce kind snapshot))
      (discarded : Db.Discarded nonce kind r db db')
  | resolved {resolution : ExecutionResolution} {crossed : Bool} {e : ExecutionRecord}
      (call : op = .commit (.resolveExecution resolution crossed))
      (resolved : Db.Resolved resolution crossed db db') (mem : e ∈ db.executions)
      (outcome : e.outcome = none)
      (owns : e.evidence.any (·.candidateNonce == r.delta.nonce) = true)
      (candidate : r.delta.status.isCandidate = true)

/-- A row that is rewritten is there afterwards; every other one is kept. -/
theorem Db.Rewrites.row_to {db db' : Db} {row row' r : DeltaRow} (h : Db.Rewrites db db' row row')
    (hr : r ∈ db.deltas) : r ∈ db'.deltas ∨ (r = row ∧ row' ∈ db'.deltas) := by
  by_cases heq : r = row
  · exact .inr ⟨heq, h.mem.mpr (.inl rfl)⟩
  · exact .inl (h.mem.mpr (.inr ⟨hr, heq⟩))

theorem Db.Inserts.row_to {db db' : Db} {delta : DeltaObject} {r : DeltaRow}
    (h : Db.Inserts db db' delta) (hr : r ∈ db.deltas) :
    r ∈ db'.deltas ∨ (r.delta.nonce = delta.nonce ∧ r.delta.status.isParked = true) := by
  by_cases heq : r.delta.nonce = delta.nonce
  · exact .inr ⟨heq, h.parked hr heq⟩
  · exact .inl (h.mem.mpr (.inr ⟨hr, heq⟩))

/-- Every row before a call has one of these ends. -/
theorem Effect.row_to {pid : Nat} {op : Op} {w w' : World} (h : Effect pid w op w')
    {r : DeltaRow} (hr : r ∈ w.db.deltas) : RowTo w.db w'.db op r := by
  cases h with
  | idle | read | began | rolledBack | asked | returned => exact .kept hr
  | stateSubmitted | stateReplaced | metadataCreated | pruned | leased => exact .kept hr
  | submitted h =>
    rcases h.inserts.row_to hr with hr | ⟨hn, hp⟩
    · exact .kept hr
    · exact .superseded (.submitted h) hn hp
  | admitted h =>
    rcases h.inserts.row_to hr with hr | ⟨hn, hp⟩
    · exact .kept hr
    · exact .superseded (.admitted h) hn hp
  | abandonRecorded h =>
    rcases h.rewrites.row_to hr with hr | ⟨rfl, hmem⟩
    · exact .kept hr
    · exact .abandoned rfl h hmem
  | updated h =>
    rcases h.rewrites.row_to hr with hr | ⟨rfl, hmem⟩
    · exact .kept hr
    · exact .updated rfl h hmem
  | authSet =>
    refine .kept ?_
    simp only [Db.setMetadataRow]
    split <;> exact hr
  | flagCleared =>
    refine .kept ?_
    rw [Db.clearPendingFlagIfNone_eq]
    exact hr
  | plain h => exact .kept (h.deltas ▸ hr)
  | promoted h =>
    rcases h.row with ⟨row, hn, hm, hsource, hrw⟩ | ⟨_, hres⟩
    · rcases hrw.row_to hr with hr | ⟨rfl, hmem⟩
      · exact .kept hr
      · exact .flipped rfl h hn hm hsource hmem
    · rcases hres.inserts.row_to hr with hr | ⟨hn, hp⟩
      · exact .kept hr
      · exact .replaced rfl h hres hn hp
  | @discarded _ _ _ row _ h =>
    by_cases heq : r = row
    · subst heq
      exact .discarded rfl h
    · exact .kept (h.deletes.mem.mpr ⟨hr, heq⟩)
  | reserved h => exact .kept (by rw [h.eq]; exact hr)
  | renewed h =>
    obtain ⟨_, _, _, _, heq⟩ := h.renews
    exact .kept (by rw [heq]; exact hr)
  | settled h =>
    obtain ⟨_, _, _, _, _, _, _, _, _, _, _, heq⟩ := h.settles
    exact .kept (by rw [heq]; exact hr)
  | resolved h =>
    obtain ⟨e, he, hout, _, _, hmem⟩ := h.fails
    by_cases hgone : e.evidence.any (·.candidateNonce == r.delta.nonce) = true ∧
        r.delta.status.isCandidate = true
    · exact .resolved rfl h (List.mem_of_find?_eq_some he) hout hgone.1 hgone.2
    · exact .kept (hmem.mpr ⟨hr, hgone⟩)

/-- A promotion leaves a canonical row. -/
theorem Op.Fits.canonical {net : Network} {cfg : Config} {p : CandidatePromotion}
    (h : Op.Fits net cfg (.commit (.promoteCandidate p))) :
    p.delta.status.isCanonical = true ∧ p.delta.newCommitment = some p.state.commitment := by
  obtain ⟨_, _, _, _, hp⟩ := h
  obtain ⟨_, hd⟩ := hp.delta
  rw [hd, hp.state]
  exact ⟨rfl, rfl⟩

theorem isCandidate_of_isCanonical {s : DeltaStatus} (h : s.isCanonical = true) :
    s.isCandidate = false := by
  cases s <;> first | rfl | cases h

/-- A candidate after a call was one before it, or has just been queued. -/
theorem Effect.candidate_cases {net : Network} {cfg : Config} {pid : Nat} {op : Op} {w w' : World}
    (h : Effect pid w op w') (hfits : op.Fits net cfg) {r : DeltaRow} (hr : r ∈ w'.db.deltas)
    (hc : r.delta.status.isCandidate = true) :
    (∃ row ∈ w.db.deltas, row.delta.status.isCandidate = true ∧ row.id = r.id ∧
      SameDelta r.delta row.delta) ∨
    (∃ delta, Queued w.db w'.db op delta ∧ r = ⟨w.db.nextId, delta⟩) := by
  cases h.row_cases hr with
  | kept hmem => exact .inl ⟨r, hmem, hc, rfl, .refl _⟩
  | queued hq heq => exact .inr ⟨_, hq, heq⟩
  | abandoned _ hrec heq =>
    exact .inl ⟨_, hrec.rewrites.mem_row, hrec.candidate, by rw [heq]; rfl, heq ▸ rewrite_same _ _⟩
  | updated _ hup heq =>
    exact .inl ⟨_, hup.rewrites.mem_row, hup.candidate, by rw [heq]; rfl, heq ▸ rewrite_same _ _⟩
  | flipped hcall _ _ _ _ _ heq =>
    subst hcall heq
    cases hc.symm.trans (isCandidate_of_isCanonical hfits.canonical.1)
  | restored hcall _ _ _ heq =>
    subst hcall heq
    cases hc.symm.trans (isCandidate_of_isCanonical hfits.canonical.1)

/-! ## What was ever queued -/

theorem Db.Inserts.ne {db : Db} {delta : DeltaObject} (h : db.Inserts db delta) : False := by
  have := h.nextId
  omega

/-- A queued delta is noted. -/
theorem Effect.noted {pid : Nat} {op : Op} {w w' : World} {delta : DeltaObject}
    (h : Effect pid w op w') (hq : Queued w.db w'.db op delta) :
    w'.ghost.admitted = delta :: w.ghost.admitted := by
  have hid := hq.inserts.nextId
  cases hq with
  | submitted =>
    cases h with
    | submitted => rfl
    | idle => simp at hid
    | plain h => have := h.nextId; simp only at hid; omega
  | admitted =>
    cases h with
    | admitted => rfl
    | idle | rolledBack => simp at hid
    | renewed h =>
      obtain ⟨_, _, _, _, heq⟩ := h.renews
      simp [heq, Db.updateExecution] at hid

/-- The record of what was queued grows by what a call queues. -/
theorem Effect.admitted_cases {pid : Nat} {op : Op} {w w' : World} (h : Effect pid w op w') :
    w'.ghost.admitted = w.ghost.admitted ∨
    ∃ delta, Queued w.db w'.db op delta ∧ w'.ghost.admitted = delta :: w.ghost.admitted := by
  cases h with
  | submitted h => exact .inr ⟨_, .submitted h, rfl⟩
  | admitted h => exact .inr ⟨_, .admitted h, rfl⟩
  | _ => exact .inl rfl

/-- The deltas a call queued. -/
def World.newlyQueued (w w' : World) : List DeltaObject :=
  w'.ghost.admitted.take (w'.ghost.admitted.length - w.ghost.admitted.length)

theorem Effect.mem_newlyQueued {pid : Nat} {op : Op} {w w' : World} {delta : DeltaObject}
    (h : Effect pid w op w') (hq : Queued w.db w'.db op delta) : delta ∈ w.newlyQueued w' := by
  have hone : (w.ghost.admitted.length + 1) - w.ghost.admitted.length = 1 := by omega
  simp [World.newlyQueued, h.noted hq, hone]

theorem Effect.admitted_mono {pid : Nat} {op : Op} {w w' : World} (h : Effect pid w op w')
    {d : DeltaObject} (hd : d ∈ w.ghost.admitted) : d ∈ w'.ghost.admitted := by
  rcases h.admitted_cases with heq | ⟨_, _, heq⟩
  · exact heq ▸ hd
  · exact heq ▸ .tail _ hd

/-- Row ids are given out once. -/
theorem Effect.nextId_le {pid : Nat} {op : Op} {w w' : World} (h : Effect pid w op w') :
    w.db.nextId ≤ w'.db.nextId := by
  cases h with
  | submitted h | admitted h =>
    have := h.inserts.nextId
    simp only
    omega
  | abandonRecorded h | updated h => exact h.rewrites.nextId.ge
  | authSet =>
    simp only [Db.setMetadataRow]
    split <;> exact le_rfl
  | flagCleared =>
    rw [Db.clearPendingFlagIfNone_eq]
    exact le_rfl
  | plain h => exact h.nextId.ge
  | promoted h =>
    rcases h.row with ⟨_, _, _, _, hrw⟩ | ⟨_, hres⟩
    · exact hrw.nextId.ge
    · have := hres.inserts.nextId
      simp only
      omega
  | discarded h => exact h.deletes.nextId.ge
  | reserved h => exact (by rw [h.eq])
  | renewed h =>
    obtain ⟨_, _, _, _, heq⟩ := h.renews
    exact (by rw [heq]; rfl)
  | settled h =>
    obtain ⟨_, _, _, _, _, _, _, _, _, _, _, heq⟩ := h.settles
    exact (by rw [heq]; rfl)
  | resolved h => exact (by simp only; rw [h.nextId])
  | _ => exact le_rfl

/-! ## The state row -/

/-- A call that wrote the state row. -/
inductive StateWrite (db db' : Db) : Op → StateObject → Prop where
  | submitted {state : StateObject} {created : Bool} :
      StateWrite db db' (.write (.submitState state created)) state
  | replaced {state current : StateObject} (h : db.state = some current) :
      StateWrite db db' (.write (.replaceState state current.commitment)) state
  | promoted {p : CandidatePromotion} (h : Db.Promoted p db db') :
      StateWrite db db' (.commit (.promoteCandidate p)) p.state

/-- The state row changes by these calls only, and each is noted. -/
theorem Effect.state_cases {pid : Nat} {op : Op} {w w' : World} (h : Effect pid w op w') :
    (w'.db.state = w.db.state ∧ w'.ghost.storedLog = w.ghost.storedLog ∧
      w'.ghost.offChainStored = w.ghost.offChainStored) ∨
    ∃ state, StateWrite w.db w'.db op state ∧ w'.db.state = some state.asStored ∧
      w'.ghost.storedLog = state.commitment :: w.ghost.storedLog ∧
      w'.ghost.offChainStored =
        (w.ghost.offChainStored || !decide (state.commitment ∈ w.chain.history)) := by
  cases h with
  | stateSubmitted => exact .inr ⟨_, .submitted, rfl, rfl, rfl⟩
  | stateReplaced h => exact .inr ⟨_, .replaced h, rfl, rfl, rfl⟩
  | promoted h => exact .inr ⟨_, .promoted h, h.state, rfl, rfl⟩
  | submitted h | discarded h | admitted h | resolved h => exact .inl ⟨h.state, rfl, rfl⟩
  | abandonRecorded h | updated h => exact .inl ⟨h.rest.state, rfl, rfl⟩
  | authSet =>
    refine .inl ⟨?_, rfl, rfl⟩
    simp only [Db.setMetadataRow]
    split <;> rfl
  | flagCleared =>
    refine .inl ⟨?_, rfl, rfl⟩
    rw [Db.clearPendingFlagIfNone_eq]
    rfl
  | plain h => exact .inl ⟨h.state, rfl, rfl⟩
  | reserved h => exact .inl ⟨by rw [h.eq], rfl, rfl⟩
  | renewed h =>
    obtain ⟨_, _, _, _, heq⟩ := h.renews
    exact .inl ⟨by rw [heq]; rfl, rfl, rfl⟩
  | settled h =>
    obtain ⟨_, _, _, _, _, _, _, _, _, _, _, heq⟩ := h.settles
    exact .inl ⟨by rw [heq]; rfl, rfl, rfl⟩
  | _ => exact .inl ⟨rfl, rfl, rfl⟩

end Guardian
