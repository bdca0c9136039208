import Guardian.Lib.Beside
import Guardian.Rows

/- The counters of a queued candidate. A full pass that finds a candidate on the
   stored state asks the chain once (`process_full_candidate`), and what it learns
   is kept in the row's status: how often in a row the account was seen past the
   candidate's base, and how often in a row it was seen at it since the client
   asked to abandon. Four handlers write the status, each from the row as the pass
   listed it.

   `Sight` is the history of one row: every look at the chain, with what of it the
   row has recorded, and every write that took the row out of the queue, with the
   looks up to it. A look that was recorded and not followed by a look that ends
   its run is counted, and the counters are the lengths of these runs
   (`candidate_counters_are_runs`). A match whose promotion does not go through
   leaves the row queued with its counters as they were; the theorem speaks of runs
   without one. The counters are `u32` in the source, and stay below that bound
   here: each is below its configured limit before it is raised. -/
namespace Guardian

open Interleaving Service

/-! ## Looks at the chain -/

inductive Observation where
  /-- The candidate is on chain, itself or below a successor or a later
  transaction. -/
  | landed
  /-- The account is neither at the candidate's base nor at its result. -/
  | diverged
  /-- The account is at the candidate's base, or not on chain yet. -/
  | atBase
  /-- The read failed. -/
  | unread
  deriving DecidableEq, Repr

/-- What the chain's answer for the recomputed commitment says of `delta`. -/
def Observation.of (delta : DeltaObject) (recomputed : Commitment) (successors : List Commitment) :
    Option StateVerification → Observation
  | none => .unread
  | some .match => .landed
  | some .absent => .atBase
  | some (.mismatch onChain) =>
    if Processor.landedThroughSuccessor delta recomputed onChain successors then .landed
    else if onChain ≠ delta.prevCommitment then .diverged
    else .atBase

/-- One look, and what the row has recorded of it: whether a write that moved the
divergence count took effect, and one that moved the confirmations of a row listed
with an abandon request. -/
structure Look where
  seen : Observation
  streak : Bool
  confirmation : Bool
  deriving DecidableEq, Repr

/-- The length of the current run: the newest entries that are `p`. -/
def currentRun {α : Type} (p : α → Bool) (entries : List α) : Nat := (entries.takeWhile p).length

/-- Divergences in a row, among the looks recorded in the divergence count. -/
def divergenceRun (looks : List Look) : Nat :=
  currentRun (fun l => l.seen = .diverged) (looks.filter (·.streak))

/-- Confirmations in a row, since the client asked to abandon: a recorded
divergence ends them. -/
def confirmationRun (looks : List Look) : Nat :=
  currentRun (fun l => l.seen = .atBase)
    (looks.filter (fun l => if l.seen = .diverged then l.streak else l.confirmation))

/-- The looks since a recorded one last ended the divergences. -/
def divergenceSpan (looks : List Look) : List Look :=
  looks.takeWhile fun l => !(l.streak && l.seen != .diverged)

/-- The looks since a recorded divergence last ended the confirmations. -/
def confirmationSpan (looks : List Look) : List Look :=
  looks.takeWhile fun l => !(l.streak && l.seen == .diverged)

/-- No look found the candidate on chain. -/
def Unmatched (looks : List Look) : Prop := ∀ l ∈ looks, l.seen ≠ .landed

/-- A write that took the row out of the queue: its new status, or none where it
was deleted, the row as the pass carried it, the stored commitment the pass had
read last, and the looks so far. -/
structure Ending where
  status : Option DeltaStatus
  snapshot : DeltaObject
  stored : Option Commitment
  looks : List Look
  deriving DecidableEq, Repr

/-- The history of one row. -/
structure Sight where
  looks : List Look
  stored : Option Commitment
  endings : List Ending
  deriving DecidableEq, Repr

def Sight.empty : Sight := ⟨[], none, []⟩

/-- The last look, of which nothing is recorded yet, turned out to be of a
candidate that landed. -/
def Sight.markLanded (s : Sight) : Sight :=
  match s.looks with
  | ⟨_, false, false⟩ :: looks => { s with looks := ⟨.landed, false, false⟩ :: looks }
  | _ => s

/-- A status write took effect: the last look is recorded where it moved a
counter, and a status that is no candidate's ends the history. -/
def Sight.wrote (s : Sight) (status : DeltaStatus) (snapshot : DeltaObject) : Sight :=
  if status.isCandidate then
    match s.looks with
    | [] => s
    | l :: looks =>
      { s with looks :=
          ⟨l.seen, l.streak || status.divergenceCount != snapshot.status.divergenceCount,
            l.confirmation || (snapshot.status.abandonRequestedAt.isSome &&
              status.abandonConfirmCount != snapshot.status.abandonConfirmCount)⟩ :: looks }
  else { s with endings := ⟨some status, snapshot, s.stored, s.looks⟩ :: s.endings }

/-- The row was deleted. -/
def Sight.removed (s : Sight) (snapshot : DeltaObject) : Sight :=
  { s with endings := ⟨none, snapshot, s.stored, s.looks⟩ :: s.endings }

/-! ## One row among others -/

/-- The row `rowId` at `nonce`, still queued. -/
structure Tracked (rowId : Nat) (nonce : Nonce) (w : World) (r : DeltaRow) : Prop where
  mem : r ∈ w.db.deltas
  id : r.id = rowId
  nonce : r.delta.nonce = nonce
  candidate : r.delta.status.isCandidate = true

/-- The row at `nonce` is the row `rowId`. -/
def Db.isAtId (db : Db) (rowId : Nat) (nonce : Nonce) : Bool := (db.rowAt nonce).any (·.id == rowId)

/-- What the calls of a pass that visits `delta` add to the history of row `rowId`. -/
def noteSight (rowId : Nat) (delta : DeltaObject) (successors : List Commitment) :
    Note Op World Choice Sight
  | pid, .query .pullState, ch, w, s =>
    match exec pid (.query .pullState) ch w with
    | some (some (some state), _) => { s with stored := some state.commitment }
    | _ => s
  | pid, .node (.verifyCommitment c mode), ch, w, s =>
    match exec pid (.node (.verifyCommitment c mode)) ch w with
    | some (answer, _) =>
      { s with looks := ⟨.of delta c successors answer, false, false⟩ :: s.looks }
    | none => s
  | pid, .node (.findTransactionEndingAt target block), ch, w, s =>
    match exec pid (.node (.findTransactionEndingAt target block)) ch w with
    | some (some search, _) => if search.foundInBlock.isSome then s.markLanded else s
    | _ => s
  | _, .commit (.updateCandidateStatus nonce status snapshot), ch, w, s =>
    if (Tx.updateCandidateStatus nonce status snapshot).effect ch w = some CanonicalWrite.applied ∧
        w.db.isAtId rowId nonce then s.wrote status snapshot
    else s
  | _, .commit (.discardCandidate nonce kind snapshot), ch, w, s =>
    if (Tx.discardCandidate nonce kind snapshot).effect ch w = some CanonicalWrite.applied ∧
        w.db.isAtId rowId nonce then s.removed snapshot
    else s
  | _, _, _, _, s => s

/-- Whether the call is a status write at `nonce`. -/
def Op.updatesAt (nonce : Nonce) : Op → Bool
  | .commit (.updateCandidateStatus n _ _) => decide (n = nonce)
  | _ => false

/-- What happens besides: any call of any process and any act of the environment,
except that a status write at `nonce` (of a pass that lost the lease) is refused. -/
def Elsewhere (net : Network) (cfg : Config) (nonce : Nonce) (w w' : World) : Prop :=
  (∃ pid op, op.Fits net cfg ∧ (op.updatesAt nonce = true → w'.db = w.db) ∧ Effect pid w op w') ∨
    ActEffect net w w'

section Rows
variable {net : Network} {cfg : Config} {rowId : Nat} {nonce : Nonce} {w w' : World} {r r' : DeltaRow}

/-- The same candidate, with the same counters. -/
structure SameCounts (r' r : DeltaRow) : Prop where
  same : SameDelta r'.delta r.delta
  divergence : r'.delta.status.divergenceCount = r.delta.status.divergenceCount
  confirmation : r'.delta.status.abandonConfirmCount = r.delta.status.abandonConfirmCount

theorem SameCounts.refl (r : DeltaRow) : SameCounts r r := ⟨.refl _, rfl, rfl⟩

theorem Tracked.eq (h : Tracked rowId nonce w r) (h' : Tracked rowId nonce w r') : r = r' :=
  Db.eq_of_nonce h.mem h'.mem (h.nonce.trans h'.nonce.symm)

theorem Tracked.rowAt (h : Tracked rowId nonce w r) : w.db.rowAt nonce = some r :=
  Db.rowAt_eq_some.mpr ⟨h.mem, h.nonce⟩

/-- No other call touches the counters of a queued candidate, or brings it back. -/
theorem Elsewhere.tracked (h : Elsewhere net cfg nonce w w') (hid : rowId < w.db.nextId)
    (hr : Tracked rowId nonce w' r') : ∃ r, Tracked rowId nonce w r ∧ SameCounts r' r := by
  obtain ⟨pid, op, hfits, hop, heffect⟩ | hact := h
  swap
  · refine ⟨r', ?_, .refl r'⟩
    cases hact <;> exact ⟨hr.mem, hr.id, hr.nonce, hr.candidate⟩
  have hne : w.db.nextId ≠ rowId := by omega
  cases heffect.row_cases hr.mem with
  | kept hmem => exact ⟨r', ⟨hmem, hr.id, hr.nonce, hr.candidate⟩, .refl r'⟩
  | queued hq heq =>
    subst heq
    exact absurd hr.id hne
  | @abandoned _ _ now row hcall hrec heq =>
    refine ⟨row, ⟨hrec.rewrites.mem_row, ?_, ?_, hrec.candidate⟩, ?_⟩
    · rw [← hr.id, heq]
      rfl
    · rw [← hr.nonce, heq]
      rfl
    · rw [heq]
      refine ⟨rewrite_same _ _, ?_, ?_⟩
      · show (row.delta.status.withAbandonRequested now).divergenceCount = _
        cases row.delta.status <;> rfl
      · show (row.delta.status.withAbandonRequested now).abandonConfirmCount = _
        cases row.delta.status <;> rfl
  | updated hcall hup heq =>
    subst hcall
    have hsame : (_ : Nonce) = nonce := hup.row_nonce.symm.trans (by rw [← hr.nonce, heq]; rfl)
    have hdb : w'.db = w.db := hop (decide_eq_true hsame)
    exact ⟨r', ⟨hdb ▸ hr.mem, hr.id, hr.nonce, hr.candidate⟩, .refl r'⟩
  | flipped hcall _ _ _ _ _ heq =>
    subst hcall heq
    cases hr.candidate.symm.trans (isCandidate_of_isCanonical hfits.canonical.1)
  | restored hcall _ _ _ heq =>
    subst hcall heq
    exact absurd hr.id hne

theorem Elsewhere.nextId_le (h : Elsewhere net cfg nonce w w') : w.db.nextId ≤ w'.db.nextId := by
  obtain ⟨_, _, _, _, heffect⟩ | hact := h
  · exact heffect.nextId_le
  · cases hact <;> exact le_rfl

end Rows

/-! ## What the counters are -/

/-- The last look. -/
def Ending.seen (e : Ending) : Option Observation := e.looks.head?.map (·.seen)

/-- The last look is a divergence, and with it the run, where no match is in it,
reaches the limit. -/
def Ending.Diverged (cfg : Config) (e : Ending) : Prop :=
  e.seen = some .diverged ∧ (Unmatched (divergenceSpan e.looks) →
    cfg.divergenceConfirmations ≤ divergenceRun e.looks + 1)

/-- The last look confirms the abandon request, and with it the run, where no match
is in it, reaches the limit. -/
def Ending.Confirmed (cfg : Config) (e : Ending) : Prop :=
  e.seen = some .atBase ∧ (Unmatched (confirmationSpan e.looks) →
    cfg.abandonQuarantineChecks ≤ confirmationRun e.looks + 1)

/-- The last look shows nothing, and the retries are used up. -/
def Ending.Exhausted (cfg : Config) (e : Ending) : Prop :=
  (e.seen = some .atBase ∨ e.seen = some .unread) ∧
    cfg.maxRetries ≤ e.snapshot.status.retryCount + 1

/-- The stored state is not the candidate's base. -/
def Ending.Orphaned (e : Ending) : Prop :=
  ∃ c, e.stored = some c ∧ c ≠ e.snapshot.prevCommitment

/-- Why a candidate left the queue, by the status it left it with. -/
def Ending.Justified (cfg : Config) (e : Ending) : Prop :=
  match e.status with
  | some (.retained _ (some .diverged)) => e.Diverged cfg
  | some (.retained _ (some .retryExhausted)) => e.Exhausted cfg
  | some (.retained _ (some .orphaned)) => e.Orphaned
  | some (.discarded _ (some .clientAbandoned)) => e.snapshot.status.abandonRequestedAt.isSome ∧
      (e.Diverged cfg ∨ e.Confirmed cfg ∨ e.Exhausted cfg ∨ e.Orphaned)
  | none => e.Diverged cfg ∨ e.Exhausted cfg ∨ e.Orphaned
  | _ => False

/-- While the row is queued its counters are the current runs, and every write
that took it out of the queue was justified. -/
structure Counted (cfg : Config) (rowId : Nat) (nonce : Nonce) (w : World) (s : Sight) : Prop where
  known : rowId < w.db.nextId
  counts : ∀ r, Tracked rowId nonce w r → r.delta.status.divergenceCount = divergenceRun s.looks ∧
    r.delta.status.abandonConfirmCount = confirmationRun s.looks
  endings : ∀ e ∈ s.endings, e.Justified cfg

/-- And they are those of the status a pass carries. -/
structure Carried (cfg : Config) (rowId : Nat) (nonce : Nonce) (status : DeltaStatus) (w : World)
    (s : Sight) : Prop where
  counted : Counted cfg rowId nonce w s
  divergence : ∀ r, Tracked rowId nonce w r → r.delta.status.divergenceCount = status.divergenceCount
  confirmation : ∀ r, Tracked rowId nonce w r →
    r.delta.status.abandonConfirmCount = status.abandonConfirmCount

/-- A status write or a deletion. -/
def Op.rewrites : Op → Bool
  | .commit (.updateCandidateStatus ..) | .commit (.discardCandidate ..) => true
  | _ => false

section Steps
variable {net : Network} {cfg : Config} {rowId pid : Nat} {nonce : Nonce} {status : DeltaStatus}
  {w w' : World} {s : Sight} {delta : DeltaObject} {successors : List Commitment}

/-- A look that is not recorded counts for nothing. -/
@[simp] theorem divergenceRun_unrecorded (o : Observation) (c : Bool) (looks : List Look) :
    divergenceRun (⟨o, false, c⟩ :: looks) = divergenceRun looks := by
  simp [divergenceRun]

@[simp] theorem confirmationRun_unrecorded (o : Observation) (looks : List Look) :
    confirmationRun (⟨o, false, false⟩ :: looks) = confirmationRun looks := by
  simp [confirmationRun]

theorem Counted.elsewhere (h : Counted cfg rowId nonce w s) (hstep : Elsewhere net cfg nonce w w') :
    Counted cfg rowId nonce w' s := by
  refine ⟨h.known.trans_le hstep.nextId_le, fun r' hr' => ?_, h.endings⟩
  obtain ⟨r, hr, hsame⟩ := hstep.tracked h.known hr'
  obtain ⟨hd, hc⟩ := h.counts r hr
  exact ⟨hsame.divergence.trans hd, hsame.confirmation.trans hc⟩

theorem Carried.elsewhere (h : Carried cfg rowId nonce status w s)
    (hstep : Elsewhere net cfg nonce w w') : Carried cfg rowId nonce status w' s := by
  refine ⟨h.counted.elsewhere hstep, fun r' hr' => ?_, fun r' hr' => ?_⟩
  · obtain ⟨r, hr, hsame⟩ := hstep.tracked h.counted.known hr'
    exact hsame.divergence.trans (h.divergence r hr)
  · obtain ⟨r, hr, hsame⟩ := hstep.tracked h.counted.known hr'
    exact hsame.confirmation.trans (h.confirmation r hr)

/-- A call that rewrites no row is one that could have happened elsewhere. -/
theorem Elsewhere.of_exec {op : Op} {ch : Choice} {r : Res op} (hfits : op.Fits net cfg)
    (hop : op.rewrites = false) (hx : exec pid op ch w = some (r, w')) :
    Elsewhere net cfg nonce w w' := by
  refine .inl ⟨pid, op, hfits, fun h => ?_, (exec_effect hx).2⟩
  unfold Op.updatesAt at h
  split at h
  · cases hop
  · cases h

/-- Such a call notes nothing that counts. -/
theorem noteSight_runs {op : Op} {ch : Choice} (hop : op.rewrites = false) :
    divergenceRun (noteSight rowId delta successors pid op ch w s).looks = divergenceRun s.looks ∧
      confirmationRun (noteSight rowId delta successors pid op ch w s).looks =
        confirmationRun s.looks ∧
      (noteSight rowId delta successors pid op ch w s).endings = s.endings := by
  unfold noteSight
  split
  · split <;> exact ⟨rfl, rfl, rfl⟩
  · split
    · exact ⟨divergenceRun_unrecorded _ _ _, confirmationRun_unrecorded _ _, rfl⟩
    · exact ⟨rfl, rfl, rfl⟩
  · split
    · split
      · unfold Sight.markLanded
        split
        · next hlooks =>
          rw [hlooks]
          simp
        · exact ⟨rfl, rfl, rfl⟩
      · exact ⟨rfl, rfl, rfl⟩
    · exact ⟨rfl, rfl, rfl⟩
  · cases hop
  · cases hop
  · exact ⟨rfl, rfl, rfl⟩

theorem Carried.noted {s' : Sight} (h : Carried cfg rowId nonce status w s)
    (hd : divergenceRun s'.looks = divergenceRun s.looks)
    (hc : confirmationRun s'.looks = confirmationRun s.looks) (he : s'.endings = s.endings) :
    Carried cfg rowId nonce status w s' := by
  refine ⟨⟨h.counted.known, fun r hr => ?_, ?_⟩, h.divergence, h.confirmation⟩
  · rw [hd, hc]
    exact h.counted.counts r hr
  · rw [he]
    exact h.counted.endings

/-- A call that rewrites no row keeps the counters and what is noted of them. -/
theorem Carried.call {op : Op} {ch : Choice} {r : Res op} (h : Carried cfg rowId nonce status w s)
    (hfits : op.Fits net cfg) (hop : op.rewrites = false) (hx : exec pid op ch w = some (r, w')) :
    Carried cfg rowId nonce status w' (noteSight rowId delta successors pid op ch w s) :=
  (h.elsewhere (.of_exec hfits hop hx)).noted (noteSight_runs hop).1 (noteSight_runs hop).2.1
    (noteSight_runs hop).2.2

theorem Tracked.isAtId {r : DeltaRow} (h : Tracked rowId nonce w r) : w.db.isAtId rowId nonce = true := by
  rw [Db.isAtId, h.rowAt, Option.any_some, beq_iff_eq]
  exact h.id

/-- A candidate status is refused only for a stale lease, or where no candidate is
left. -/
theorem Db.updateCandidateStatus_refused {current : Bool} {a : CanonicalWrite} {db' : Db}
    (hc : status.isCandidate = true)
    (h : w.db.updateCandidateStatus current nonce status = some (a, db')) (ha : a ≠ .applied) :
    a = .staleLease ∨ ∀ r, ¬Tracked rowId nonce w r := by
  have hkind : status.kind = .candidate := by
    cases status <;> first | rfl | cases hc
  unfold Db.updateCandidateStatus at h
  split at h
  · cases h
  split at h
  swap
  · cases h
    exact .inl rfl
  rw [if_neg (fun hprot => hprot.1 hkind)] at h
  split at h
  · next hrow =>
    refine .inr fun r hr => ?_
    rw [hr.rowAt] at hrow
    cases hrow
  · next row hrow =>
    split at h
    · dsimp only at h
      rw [if_neg (fun hret => by rw [hkind] at hret; cases hret.1)] at h
      cases h
      exact absurd rfl ha
    · next hnot =>
      refine .inr fun r hr => ?_
      rw [hr.rowAt] at hrow
      cases hrow
      exact hnot hr.candidate

/-- What a status write of the visit can do to the row: nothing, find another one
in its place, or change it. -/
theorem exec_update {snap : DeltaObject} {ch : Choice} {r : Option CanonicalWrite}
    (hx : exec pid (.commit (.updateCandidateStatus nonce status snap)) ch w = some (r, w')) :
    (w'.db = w.db ∧ noteSight rowId delta successors pid
        (.commit (.updateCandidateStatus nonce status snap)) ch w s = s ∧ r ≠ some .applied ∧
      (status.isCandidate = true → ∀ a, r = some a →
        a = .staleLease ∨ ∀ row, ¬Tracked rowId nonce w row)) ∨
    (w'.db.nextId = w.db.nextId ∧ (∀ row, ¬Tracked rowId nonce w' row) ∧ noteSight rowId delta successors pid
      (.commit (.updateCandidateStatus nonce status snap)) ch w s = s) ∨
    (noteSight rowId delta successors pid (.commit (.updateCandidateStatus nonce status snap)) ch w s =
        s.wrote status snap ∧ (∀ a, r = some a → a = .applied) ∧
      ∃ row, Tracked rowId nonce w row ∧ Db.Updated nonce status row w.db w'.db) := by
  simp only [noteSight]
  obtain ⟨heffect, rfl, hdb⟩ | ⟨a, current, heffect, hanswer, hrun⟩ := exec_commit_cases hx
  · refine .inl ⟨hdb, if_neg fun h => ?_, fun h => (by cases h), fun _ a h => by cases h⟩
    rw [heffect] at h
    cases h.1
  obtain ⟨hne, hdb⟩ | ⟨rfl, row, hup⟩ := Db.updateCandidateStatus_cases hrun
  · refine .inl ⟨hdb, if_neg fun h => ?_, fun h => hne (hanswer _ h).symm, fun hc b hb => ?_⟩
    · rw [heffect] at h
      exact hne (Option.some.inj h.1)
    · obtain rfl := hanswer b hb
      exact Db.updateCandidateStatus_refused hc hrun hne
  by_cases hid : row.id = rowId
  · have htracked : Tracked rowId nonce w row :=
      ⟨hup.rewrites.mem_row, hid, hup.row_nonce, hup.candidate⟩
    exact .inr (.inr ⟨if_pos ⟨heffect, htracked.isAtId⟩, hanswer, row, htracked, hup⟩)
  · have hrow : w.db.rowAt nonce = some row :=
      Db.rowAt_eq_some.mpr ⟨hup.rewrites.mem_row, hup.row_nonce⟩
    refine .inr (.inl ⟨hup.rewrites.nextId, fun r hr => ?_, if_neg fun h => ?_⟩)
    · obtain rfl | ⟨hmem, hne⟩ := hup.rewrites.mem.mp hr.mem
      · exact hid hr.id
      · exact hne (Db.eq_of_nonce hmem hup.rewrites.mem_row (hr.nonce.trans hup.row_nonce.symm))
    · rw [Db.isAtId, hrow, Option.any_some, beq_iff_eq] at h
      exact hid h.2

/-- The row a status write leaves. -/
theorem Db.Updated.tracked {row r : DeltaRow} (h : Db.Updated nonce status row w.db w'.db)
    (hr : Tracked rowId nonce w' r) : status.isCandidate = true ∧
      r.delta.status.divergenceCount = status.divergenceCount ∧
      r.delta.status.abandonConfirmCount = status.abandonConfirmCount := by
  obtain rfl | ⟨hmem, hne⟩ := h.rewrites.mem.mp hr.mem
  · have hstatus : (row.rewrite (fun _ => status.withAbandonRequestPreservedFrom
        row.delta.status.abandonRequestedAt) id).delta.status =
        status.withAbandonRequestPreservedFrom row.delta.status.abandonRequestedAt := rfl
    have hc := hr.candidate
    rw [hstatus, DeltaStatus.isCandidate_withAbandonRequestPreservedFrom] at hc
    rw [hstatus]
    refine ⟨hc, ?_, ?_⟩
    · unfold DeltaStatus.withAbandonRequestPreservedFrom
      split <;> rfl
    · unfold DeltaStatus.withAbandonRequestPreservedFrom
      split <;> rfl
  · exact absurd (Db.eq_of_nonce hmem h.rewrites.mem_row (hr.nonce.trans h.row_nonce.symm)) hne

/-- The same for a deletion, which leaves no candidate where it takes effect. -/
theorem exec_discard {snap : DeltaObject} {ch : Choice} {r : Option CanonicalWrite}
    (hx : exec pid (.commit (.discardCandidate nonce .candidate snap)) ch w = some (r, w')) :
    (w'.db = w.db ∧ noteSight rowId delta successors pid
      (.commit (.discardCandidate nonce .candidate snap)) ch w s = s) ∨
    (w'.db.nextId = w.db.nextId ∧ (∀ row, ¬Tracked rowId nonce w' row) ∧
      (noteSight rowId delta successors pid
          (.commit (.discardCandidate nonce .candidate snap)) ch w s = s ∨
        noteSight rowId delta successors pid
          (.commit (.discardCandidate nonce .candidate snap)) ch w s = s.removed snap ∧
        ∃ row, Tracked rowId nonce w row)) := by
  simp only [noteSight]
  obtain ⟨heffect, rfl, hdb⟩ | ⟨a, current, heffect, hanswer, hrun⟩ := exec_commit_cases hx
  · refine .inl ⟨hdb, if_neg fun h => ?_⟩
    rw [heffect] at h
    cases h.1
  obtain ⟨hne, hdb⟩ | ⟨rfl, row, hdisc⟩ := Db.discardCandidate_cases hrun
  · refine .inl ⟨hdb, if_neg fun h => ?_⟩
    rw [heffect] at h
    exact hne (Option.some.inj h.1)
  refine .inr ⟨hdisc.deletes.nextId, fun r hr => ?_, ?_⟩
  · obtain ⟨hmem, hne⟩ := hdisc.deletes.mem.mp hr.mem
    exact hne (Db.eq_of_nonce hmem hdisc.deletes.mem_row (hr.nonce.trans hdisc.row_nonce.symm))
  · split
    · next h =>
      have hrow : w.db.rowAt nonce = some row :=
        Db.rowAt_eq_some.mpr ⟨hdisc.deletes.mem_row, hdisc.row_nonce⟩
      have hid := h.2
      rw [Db.isAtId, hrow, Option.any_some, beq_iff_eq] at hid
      refine .inr ⟨rfl, row, hdisc.deletes.mem_row, hid, hdisc.row_nonce, ?_⟩
      have hkind := hdisc.row_kind
      cases hstatus : row.delta.status with
      | candidate => rfl
      | _ =>
        rw [hstatus] at hkind
        cases hkind
    · exact .inl rfl

theorem Tracked.of_db {r : DeltaRow} (hdb : w'.db = w.db) (h : Tracked rowId nonce w' r) :
    Tracked rowId nonce w r := ⟨hdb ▸ h.mem, h.id, h.nonce, h.candidate⟩

theorem Carried.of_db (h : Carried cfg rowId nonce status w s) (hdb : w'.db = w.db) :
    Carried cfg rowId nonce status w' s :=
  ⟨⟨hdb ▸ h.counted.known, fun r hr => h.counted.counts r (hr.of_db hdb), h.counted.endings⟩,
    fun r hr => h.divergence r (hr.of_db hdb), fun r hr => h.confirmation r (hr.of_db hdb)⟩

/-- Of a row that is not queued any more nothing is asked. -/
theorem Carried.gone {status' : DeltaStatus} (h : Carried cfg rowId nonce status w s)
    (hid : w'.db.nextId = w.db.nextId) (hgone : ∀ r, ¬Tracked rowId nonce w' r) :
    Carried cfg rowId nonce status' w' s :=
  ⟨⟨hid ▸ h.counted.known, fun r hr => absurd hr (hgone r), h.counted.endings⟩,
    fun r hr => absurd hr (hgone r), fun r hr => absurd hr (hgone r)⟩

/-- The runs are the counters of the status that is carried. -/
theorem Carried.runs {r : DeltaRow} (h : Carried cfg rowId nonce status w s)
    (hr : Tracked rowId nonce w r) : divergenceRun s.looks = status.divergenceCount ∧
      confirmationRun s.looks = status.abandonConfirmCount := by
  obtain ⟨hd, hc⟩ := h.counted.counts r hr
  exact ⟨hd.symm.trans (h.divergence r hr), hc.symm.trans (h.confirmation r hr)⟩

end Steps

/-! ## The writes of a visit -/

/-- Calls that neither look nor write the row. -/
def Op.unsighted : Op → Bool
  | .query .pullState | .node (.verifyCommitment ..) | .node (.findTransactionEndingAt ..) => false
  | o => !o.rewrites

section Visits
variable (net : Network) (cfg : Config) (rowId : Nat) (delta : DeltaObject)
  (successors : List Commitment) (pid : Nat)

/-- A procedure of a visit to `delta`, while other things happen: what it returns
with, and counted counters wherever it stops. -/
abbrev Sees {ε α : Type} (p : Proc ε α) (Q : α → World → Sight → Prop) (x : World × Sight) : Prop :=
  (beside Op (Elsewhere net cfg delta.nonce) (Counted cfg rowId delta.nonce)).Ensures
    ((machine net).recorded (noteSight rowId delta successors))
    (freeGuard Op World Choice Act Sight) pid p (fun a y => Q a y.1 y.2)
    (fun y => Counted cfg rowId delta.nonce y.1 y.2) x

variable {net cfg rowId delta successors pid} {status : DeltaStatus} {d : DeltaObject}
  {x : World × Sight} {F : List Look → Option Commitment → Prop} {fence : LeaseFence}
  {ε α β : Type}

variable (cfg rowId delta) in
/-- What a visit knows: the counters are those of the status it carries, and what
`F` says of the looks and of the stored commitment. -/
structure Known (status : DeltaStatus) (F : List Look → Option Commitment → Prop) (w : World)
    (s : Sight) : Prop where
  carried : Carried cfg rowId delta.nonce status w s
  history : F s.looks s.stored

theorem noteSight_unsighted {op : Op} {ch : Choice} {w : World} {s : Sight}
    (hop : op.unsighted = true) : noteSight rowId delta successors pid op ch w s = s := by
  unfold noteSight
  split
  · cases hop
  · cases hop
  · cases hop
  · cases hop
  · cases hop
  · rfl

theorem Known.wait {y : World × Sight} (h : Known cfg rowId delta status F x.1 x.2)
    (hrely : (beside Op (Elsewhere net cfg delta.nonce) (Counted cfg rowId delta.nonce)).rely pid x y) :
    Known cfg rowId delta status F y.1 y.2 := by
  obtain ⟨w, s⟩ := x
  obtain ⟨w', s'⟩ := y
  obtain ⟨hsteps, rfl⟩ := hrely
  exact stable_steps (I := Known cfg rowId delta status F)
    (fun _ _ _ hstep h => ⟨h.carried.elsewhere hstep, h.history⟩) hsteps h

/-- What is known survives the calls that are no looks and no writes. -/
theorem steady_known :
    (beside Op (Elsewhere net cfg delta.nonce) (Counted cfg rowId delta.nonce)).Steady
      ((machine net).recorded (noteSight rowId delta successors))
      (freeGuard Op World Choice Act Sight) pid
      (fun o => o.Fits net cfg ∧ o.unsighted = true)
      (fun y => Known cfg rowId delta status F y.1 y.2) where
  stable := fun hrely h => h.wait hrely
  own := by
    rintro op ch r ⟨w, s⟩ ⟨w', s'⟩ ⟨hfits, hop⟩ - hx - h
    obtain ⟨hx, rfl⟩ := recorded_exec hx
    rw [noteSight_unsighted hop]
    have hrewrites : op.rewrites = false := by
      unfold Op.unsighted at hop
      split at hop
      · cases hop
      · cases hop
      · cases hop
      · exact Bool.not_eq_true' _ |>.mp hop
    exact ⟨h.carried.elsewhere (.of_exec hfits hrewrites hx), h.history⟩
  ok := fun _ _ h => h.carried.counted

/-- A status write: the counters stay as carried, the row is gone, or it was
written and noted. -/
theorem sees_fenced_update {Q : Option CanonicalWrite → World → Sight → Prop}
    (hx : Known cfg rowId delta d.status F x.1 x.2)
    (hkept : ∀ {w s a}, Known cfg rowId delta d.status F w s → a ≠ some .applied →
      (status.isCandidate = true → ∀ b, a = some b →
        b = .staleLease ∨ ∀ r, ¬Tracked rowId delta.nonce w r) → Q a w s)
    (hgone : ∀ {w s a}, (∀ {status'}, Known cfg rowId delta status' F w s) →
      (∀ r, ¬Tracked rowId delta.nonce w r) → Q a w s)
    (hwrote : ∀ {w w' s a row}, Known cfg rowId delta d.status F w s →
      Tracked rowId delta.nonce w row → Db.Updated delta.nonce status row w.db w'.db →
      (∀ b, a = some b → b = .applied) → Q a w' (s.wrote status d)) :
    Sees net cfg rowId delta successors pid
      (fenced fence (.updateCandidateStatus delta.nonce status d) : Proc ε _) Q x := by
  refine Rely.Ensures.seq steady_known (Makes.op' (o := Op.begin fence)
    ⟨Op.fits_of_quiet rfl, rfl⟩) hx (fun h => h.carried.counted) fun _ y hy => ?_
  refine Rely.Ensures.op' fun z hrely _ => ?_
  obtain ⟨w, s⟩ := z
  have hz : Known cfg rowId delta d.status F w s := hy.wait hrely
  refine ⟨hz.carried.counted, fun ch a y' _ hcommit _ => ?_⟩
  obtain ⟨w', s'⟩ := y'
  obtain ⟨hcommit, rfl⟩ := recorded_exec hcommit
  obtain ⟨hdb, hnote, ha, hrefused⟩ | ⟨hid, hnone, hnote⟩ | ⟨hnote, ha, row, hrow, hup⟩ :=
    exec_update hcommit
  · refine hkept ?_ ha fun hc b hb => ?_
    · rw [hnote]
      exact ⟨hz.carried.of_db hdb, hz.history⟩
    · obtain hstale | hno := hrefused hc b hb
      · exact .inl hstale
      · exact .inr fun r hr => hno r (hr.of_db hdb)
  · refine hgone ?_ hnone
    rw [hnote]
    exact ⟨hz.carried.gone hid hnone, hz.history⟩
  · rw [hnote]
    exact hwrote hz hrow hup ha

theorem Sight.wrote_endings (s : Sight) (hc : status.isCandidate = true) :
    (s.wrote status d).endings = s.endings := by
  unfold Sight.wrote
  rw [if_pos hc]
  split <;> rfl

variable (cfg rowId delta status d F) in
/-- How a status write that keeps the candidate is answered. -/
structure WriteAnswered (a : CanonicalWrite) (w : World) (s : Sight) : Prop where
  applied : a = .applied → Carried cfg rowId delta.nonce status w s ∧
    ((∀ r, ¬Tracked rowId delta.nonce w r) ∨ ∃ s₀ : Sight, F s₀.looks s₀.stored ∧ s = s₀.wrote status d)
  refused : a ≠ .applied → Known cfg rowId delta d.status F w s ∧
    (a = .staleLease ∨ ∀ r, ¬Tracked rowId delta.nonce w r)

/-- A write that moves a counter as its look says. -/
theorem sees_count (hd : d.nonce = delta.nonce) (hc : status.isCandidate = true)
    (hmove : ∀ {s : Sight}, F s.looks s.stored → divergenceRun s.looks = d.status.divergenceCount →
      confirmationRun s.looks = d.status.abandonConfirmCount →
      divergenceRun (s.wrote status d).looks = status.divergenceCount ∧
        confirmationRun (s.wrote status d).looks = status.abandonConfirmCount)
    (hx : Known cfg rowId delta d.status F x.1 x.2) :
    Sees net cfg rowId delta successors pid (Processor.updateCandidateStatus fence d status)
      (WriteAnswered cfg rowId delta status d F) x := by
  have hcarried : ∀ {w w' s row}, Known cfg rowId delta d.status F w s →
      Tracked rowId delta.nonce w row → Db.Updated delta.nonce status row w.db w'.db →
      Carried cfg rowId delta.nonce status w' (s.wrote status d) := by
    intro w w' s row hk hrow hup
    obtain ⟨hruns, hruns'⟩ := hk.carried.runs hrow
    obtain ⟨hmd, hmc⟩ := hmove hk.history hruns hruns'
    refine ⟨⟨hup.rewrites.nextId ▸ hk.carried.counted.known, fun r hr => ?_, ?_⟩, fun r hr => ?_,
      fun r hr => ?_⟩
    · rw [hmd, hmc]
      exact (hup.tracked hr).2
    · rw [Sight.wrote_endings s hc]
      exact hk.carried.counted.endings
    · exact (hup.tracked hr).2.1
    · exact (hup.tracked hr).2.2
  unfold Processor.updateCandidateStatus
  rw [hd]
  refine Rely.Ensures.bind' (sees_fenced_update (Q := fun a w s => Counted cfg rowId delta.nonce w s ∧
    ∀ b, a = some b → WriteAnswered cfg rowId delta status d F b w s) hx ?_ ?_ ?_ |>.mono fun a y hy => ?_)
  · intro w s a hk ha hrefused
    refine ⟨hk.carried.counted, ?_⟩
    rintro b rfl
    exact ⟨fun h => absurd (congrArg some h) ha, fun _ => ⟨hk, hrefused hc b rfl⟩⟩
  · intro w s a hk hnone
    have hk' : Known cfg rowId delta d.status F w s := hk
    refine ⟨hk'.carried.counted, fun b _ => ⟨fun _ => ?_, fun _ => ⟨hk, .inr hnone⟩⟩⟩
    exact ⟨(hk : Known cfg rowId delta status F w s).carried, .inl hnone⟩
  · intro w w' s a row hk hrow hup ha
    refine ⟨(hcarried hk hrow hup).counted, fun b hb => ⟨fun _ => ?_, fun hne => ?_⟩⟩
    · exact ⟨hcarried hk hrow hup, .inr ⟨s, hk.history, rfl⟩⟩
    · exact absurd (ha b hb) hne
  · cases a with
    | none => exact Rely.Ensures.throw' _ hy.1
    | some b => exact Rely.Ensures.pure' (hy.2 b rfl)

variable (cfg d F) in
/-- What is known is a reason to take the candidate out of the queue. -/
def Reason (status : Option DeltaStatus) : Prop :=
  ∀ {looks stored}, F looks stored → divergenceRun looks = d.status.divergenceCount →
    confirmationRun looks = d.status.abandonConfirmCount →
    Ending.Justified cfg ⟨status, d, stored, looks⟩

/-- A write that takes the candidate out of the queue. -/
theorem sees_end (hd : d.nonce = delta.nonce) (hc : status.isCandidate = false)
    (hreason : Reason cfg d F (some status)) (hx : Known cfg rowId delta d.status F x.1 x.2) :
    Sees net cfg rowId delta successors pid (Processor.updateCandidateStatus fence d status)
      (fun _ w s => Known cfg rowId delta d.status F w s) x := by
  unfold Processor.updateCandidateStatus
  rw [hd]
  refine Rely.Ensures.bind' (sees_fenced_update
    (Q := fun _ w s => Known cfg rowId delta d.status F w s) hx ?_ ?_ ?_ |>.mono fun a y hy => ?_)
  · exact fun hk _ _ => hk
  · exact fun hk _ => hk
  · intro w w' s a row hk hrow hup _
    obtain ⟨hruns, hruns'⟩ := hk.carried.runs hrow
    have hwrote : s.wrote status d = { s with
        endings := ⟨some status, d, s.stored, s.looks⟩ :: s.endings } := by
      unfold Sight.wrote
      rw [if_neg (by rw [hc]; exact Bool.false_ne_true)]
    have hgone : ∀ r, ¬Tracked rowId delta.nonce w' r := by
      intro r hr
      rw [(hup.tracked hr).1] at hc
      cases hc
    rw [hwrote]
    refine ⟨⟨⟨hup.rewrites.nextId ▸ hk.carried.counted.known, fun r hr => absurd hr (hgone r),
      fun e he => ?_⟩, fun r hr => absurd hr (hgone r), fun r hr => absurd hr (hgone r)⟩, hk.history⟩
    obtain rfl | he := List.mem_cons.mp he
    · exact hreason hk.history hruns hruns'
    · exact hk.carried.counted.endings e he
  · cases a with
    | none => exact Rely.Ensures.throw' _ hy.carried.counted
    | some b => exact Rely.Ensures.pure' hy

/-- A deletion takes it out too. -/
theorem sees_remove (hd : d.nonce = delta.nonce) (hreason : Reason cfg d F none)
    (hx : Known cfg rowId delta d.status F x.1 x.2) :
    Sees net cfg rowId delta successors pid
      (fenced fence (.discardCandidate d.nonce .candidate d) : Proc ε _)
      (fun _ w s => Known cfg rowId delta d.status F w s) x := by
  rw [hd]
  refine Rely.Ensures.seq steady_known (Makes.op' (o := Op.begin fence)
    ⟨Op.fits_of_quiet rfl, rfl⟩) hx (fun h => h.carried.counted) fun _ y hy => ?_
  refine Rely.Ensures.op' fun z hrely _ => ?_
  obtain ⟨w, s⟩ := z
  have hz : Known cfg rowId delta d.status F w s := hy.wait hrely
  refine ⟨hz.carried.counted, fun ch a y' _ hcommit _ => ?_⟩
  obtain ⟨w', s'⟩ := y'
  obtain ⟨hcommit, rfl⟩ := recorded_exec hcommit
  obtain ⟨hdb, hnote⟩ | ⟨hid, hgone, hnote | ⟨hnote, row, hrow⟩⟩ := exec_discard hcommit
  · rw [hnote]
    exact ⟨hz.carried.of_db hdb, hz.history⟩
  · rw [hnote]
    exact ⟨hz.carried.gone hid hgone, hz.history⟩
  · rw [hnote]
    obtain ⟨hruns, hruns'⟩ := hz.carried.runs hrow
    refine ⟨⟨⟨hid ▸ hz.carried.counted.known, fun r hr => absurd hr (hgone r), fun e he => ?_⟩,
      fun r hr => absurd hr (hgone r), fun r hr => absurd hr (hgone r)⟩, hz.history⟩
    obtain rfl | he := List.mem_cons.mp he
    · exact hreason hz.history hruns hruns'
    · exact hz.carried.counted.endings e he

end Visits

end Guardian
