import Guardian.Storage.Filesystem
import Guardian.Storage.PostgresExecution

/- The two backends next to each other. A sequence of lifecycle operations runs
   on the rows of `Storage.Postgres` and on the files of `Storage.Filesystem`,
   one operation after the other, each to its end and with a current lease.
   `backends_agree` says that both answer alike and end with the same account.

   It needs `Uniform` of every operation, which names where they part:
   1. a queue with nonces on both sides of `2^63` is read in two orders;
   2. a discard finds no row: the rows say `NotCandidate`, the files `Applied`;
   3. an archived delta is promoted while the stored state is already at its
      target: a resumed promotion for the rows, a stale base for the files;
   4. what no caller does: promoting a row with another payload or base than
      the stored one, or an archived delta without a post commitment, and
      storing a state whose nonce the column does not hold. -/
namespace Guardian

/-- The candidate lifecycle operations. -/
inductive LifecycleOp where
  | submitCandidate (delta : DeltaObject) (now : Time) (policy : CandidatePolicy)
  | requestCandidateAbandon (nonce : Nonce) (newCommitment : Commitment) (now : Time)
  | updateCandidateStatus (nonce : Nonce) (status : DeltaStatus)
  | promoteCandidate (p : CandidatePromotion)
  | discardCandidate (nonce : Nonce) (kind : DeltaStatusKind)
  | replaceState (state : StateObject) (expected : Commitment)

/-- What an operation returns; `failed` is an error. -/
inductive Outcome where
  | submission (a : CandidateSubmission)
  | abandon (a : AbandonIntent)
  | write (a : CanonicalWrite)
  | promotion (a : PromoteWrite)
  | replacement (a : StateReplace)
  | failed
  deriving DecidableEq, Repr

/-- What a backend stores of an account. -/
@[ext]
structure AccountView where
  state : Option StateObject
  rows : Nonce → Option DeltaObject
  archive : List SupersededDelta
  metadata : Option AccountMetadata

/-! ## The backends -/

namespace Db

def deltaAt (db : Db) (nonce : Nonce) : Option DeltaObject := (db.rowAt nonce).map (·.delta)

def view (db : Db) : AccountView := ⟨db.state, db.deltaAt, db.superseded, db.metadata⟩

/-- A transaction that fails changes nothing. -/
def answered {α : Type} (db : Db) (f : α → Outcome) : Option (α × Db) → Outcome × Db
  | none => (.failed, db)
  | some (a, db') => (f a, db')

/-- An operation on Postgres, with a current lease. -/
def apply (db : Db) : LifecycleOp → Outcome × Db
  | .submitCandidate delta now policy =>
    db.answered .submission (db.submitCandidate delta now policy)
  | .requestCandidateAbandon nonce new now =>
    db.answered .abandon (db.requestCandidateAbandon nonce new now)
  | .updateCandidateStatus nonce status =>
    db.answered .write (db.updateCandidateStatus true nonce status)
  | .promoteCandidate p => db.answered .promotion (db.promoteCandidate true p)
  | .discardCandidate nonce kind => db.answered .write (db.discardCandidate true nonce kind)
  | .replaceState state expected => db.answered .replacement (db.replaceState state expected)

/-- The outcomes of a sequence, and the rows it ends with. -/
def applyAll (db : Db) : List LifecycleOp → List Outcome × Db
  | [] => ([], db)
  | op :: ops =>
    let (outcome, db') := db.apply op
    let (outcomes, final) := db'.applyAll ops
    (outcome :: outcomes, final)

end Db

namespace Files

def view (files : Files) : AccountView :=
  ⟨files.state, files.pullDelta, files.superseded, files.metadata⟩

/-- All writes of an operation. -/
def answered {α : Type} (files : Files) (f : α → Outcome) : Option (Plan α) → Outcome × Files
  | none => (.failed, files)
  | some plan => (f plan.answer, plan.run plan.writes.length files)

/-- An operation on the filesystem. -/
def apply (files : Files) : LifecycleOp → Outcome × Files
  | .submitCandidate delta now policy =>
    files.answered .submission (files.submitCandidate delta now policy)
  | .requestCandidateAbandon nonce new now =>
    files.answered .abandon (some (files.requestCandidateAbandon nonce new now))
  | .updateCandidateStatus nonce status =>
    files.answered .write (some (files.updateCandidateStatus nonce status))
  | .promoteCandidate p => files.answered .promotion (files.promoteCandidate p)
  | .discardCandidate nonce kind =>
    files.answered .write (some (files.discardCandidate nonce kind))
  | .replaceState state expected =>
    files.answered .replacement (files.replaceState state expected)

/-- The outcomes of a sequence, and the files it ends with. -/
def applyAll (files : Files) : List LifecycleOp → List Outcome × Files
  | [] => ([], files)
  | op :: ops =>
    let (outcome, files') := files.apply op
    let (outcomes, final) := files'.applyAll ops
    (outcome :: outcomes, final)

end Files

/-! ## Where they agree -/

/-- The queue is on one side of `2^63`. -/
def AccountView.OneSided (v : AccountView) : Prop :=
  ∀ {m n a b}, v.rows m = some a → v.rows n = some b → a.status.isCandidate = true →
    b.status.isCandidate = true → (m.toNat < 2^63 ↔ n.toNat < 2^63)

/-- The nonce of a state fits its column. -/
def StateObject.Narrow (s : StateObject) : Prop := s.asStored = s

/-- What the account and the operation satisfy where the backends agree. -/
def LifecycleOp.Uniform (v : AccountView) : LifecycleOp → Prop
  | .submitCandidate .. => v.OneSided
  | .requestCandidateAbandon .. | .updateCandidateStatus .. => True
  | .promoteCandidate p => p.state.Narrow ∧
    match p.source with
    | .superseded => p.delta.newCommitment ≠ none ∧ ∀ s, v.state = some s →
      s.commitment = p.state.commitment → s.commitment = p.delta.prevCommitment
    | source => ∀ d, v.rows p.delta.nonce = some d → source.matches d.status = true →
      d.prevCommitment = p.delta.prevCommitment ∧ d.deltaPayload = p.delta.deltaPayload
  | .discardCandidate nonce _ => v.rows nonce ≠ none
  | .replaceState state _ => state.Narrow

/-- Both backends hold the same account, configured and without executions. -/
structure Agrees (db : Db) (files : Files) : Prop where
  view : db.view = files.view
  executions : db.executions = []
  none_executing : files.executions = []
  state : db.state ≠ none
  metadata : db.metadata ≠ none

/-! ## What a write does to the rows -/

namespace Db
variable {db : Db} {nonce n : Nonce}

theorem deltaAt_eq_some {d : DeltaObject} : db.deltaAt n = some d ↔
    ∃ r ∈ db.deltas, r.delta = d ∧ d.nonce = n := by
  simp only [deltaAt, rowAt, Option.map_eq_some_iff, Table.find?_eq_some]
  constructor
  · rintro ⟨r, ⟨hr, hk⟩, rfl⟩
    exact ⟨r, hr, rfl, nonceColumn_inj hk⟩
  · rintro ⟨r, hr, rfl, rfl⟩
    exact ⟨r, ⟨hr, rfl⟩, rfl⟩

theorem deltaAt_updateRow {p : DeltaStatus → Bool} {f : DeltaStatus → DeltaStatus}
    {g : Option Commitment → Option Commitment} : (db.updateRow nonce p f g).deltaAt n =
      (db.deltaAt n).map (fun d => if d.nonce == nonce && p d.status then
        { d with status := f d.status, newCommitment := g d.newCommitment } else d) := by
  simp only [deltaAt, rowAt, updateRow, Table.find?_update, Option.map_map]
  refine congrFun (congrArg _ (funext fun r => ?_)) _
  by_cases h : isAt nonce p r = true
  · have h' : (r.delta.nonce == nonce && p r.delta.status) = true := h
    simp only [Function.comp, h, h', if_true, DeltaRow.rewrite]
  · have h' : ¬(r.delta.nonce == nonce && p r.delta.status) = true := h
    simp only [Function.comp, h, h', if_false, Bool.false_eq_true]

/-- The row at a nonce is gone if it satisfies `p`. -/
theorem deltaAt_deleteRow {p : DeltaStatus → Bool} : (db.deleteRow nonce p).deltaAt n =
    (db.deltaAt n).filter (fun d => !(d.nonce == nonce && p d.status)) := by
  ext d
  simp only [deltaAt_eq_some, Option.filter_eq_some_iff, deleteRow, Table.mem_delete, isAt]
  constructor
  · rintro ⟨r, ⟨hr, hp⟩, rfl, hn⟩
    exact ⟨⟨r, hr, rfl, hn⟩, by simp [hp]⟩
  · rintro ⟨⟨r, hr, rfl, hn⟩, hp⟩
    exact ⟨r, ⟨hr, by simpa only [Bool.not_eq_true'] using hp⟩, rfl, hn⟩

theorem deltaAt_insertDelta {delta : DeltaObject} {db' : Db} (h : db.insertDelta delta = some db') :
    db'.deltaAt n = if n = delta.nonce then some delta else db.deltaAt n := by
  unfold insertDelta at h
  split at h
  · cases h
  next hfree =>
  cases h
  have hfree : db.deltas.find? (DeltaRow.column ⟨db.nextId, delta⟩) = none := hfree
  split
  · next hn =>
    subst hn
    exact congrArg (Option.map (·.delta)) (Table.find?_insert_self hfree)
  · next hn =>
    refine congrArg (Option.map (·.delta)) (Table.find?_insert_ne hfree fun hk => hn ?_)
    exact (nonceColumn_inj hk).symm

theorem hasCandidate_iff_deltaAt : db.hasCandidate = true ↔
    ∃ n d, db.deltaAt n = some d ∧ d.status.isCandidate = true := by
  simp only [hasCandidate, List.any_eq_true, deltaAt_eq_some]
  constructor
  · rintro ⟨r, hr, hc⟩
    exact ⟨_, r.delta, ⟨r, hr, rfl, rfl⟩, hc⟩
  · rintro ⟨n, d, ⟨r, hr, rfl, _⟩, hc⟩
    exact ⟨r, hr, hc⟩

end Db

namespace Files
variable {files : Files} {n : Nonce}

theorem mem_iff_pullDelta {d : DeltaObject} : d ∈ files.deltas ↔ files.pullDelta d.nonce = some d :=
  ⟨fun hd => Table.find?_eq_some.mpr ⟨hd, rfl⟩, fun h => (Table.find?_eq_some.mp h).1⟩

theorem pullDelta_writeDelta {delta : DeltaObject} : (files.writeDelta delta).pullDelta n =
    if n = delta.nonce then some delta else files.pullDelta n := by
  split
  · next hn =>
    subst hn
    exact pullDelta_writeDelta_self
  · next hn => exact pullDelta_writeDelta_ne hn

theorem pullDelta_deleteDelta {nonce : Nonce} : (files.deleteDelta nonce).pullDelta n =
    if n = nonce then none else files.pullDelta n := by
  split
  · next hn =>
    subst hn
    exact find?_deleteDelta files n
  · next hn => exact pullDelta_deleteDelta_ne hn

theorem candidates_isEmpty : files.candidates.isEmpty = false ↔
    ∃ n d, files.pullDelta n = some d ∧ d.status.isCandidate = true := by
  rw [List.isEmpty_eq_false_iff_exists_mem]
  constructor
  · rintro ⟨d, hd⟩
    obtain ⟨hd, hc⟩ := Table.mem_select.mp hd
    exact ⟨d.nonce, d, mem_iff_pullDelta.mp hd, hc⟩
  · rintro ⟨n, d, hd, hc⟩
    have hn := pullDelta_eq_some hd
    subst hn
    exact ⟨d, Table.mem_select.mpr ⟨mem_iff_pullDelta.mpr hd, hc⟩⟩

end Files

/-! ## Operations -/

/-- The column orders nonces of one side as the `u64`s they are. -/
theorem nonceColumn_lt_of_side {m n : Nonce} (h : m.toNat < 2^63 ↔ n.toNat < 2^63)
    (hlt : nonceColumn m < nonceColumn n) : m.toNat < n.toNat := by
  unfold nonceColumn at hlt
  rw [BitVec.toInt_eq_toNat_cond, BitVec.toInt_eq_toNat_cond] at hlt
  split at hlt <;> split at hlt <;> omega

section Operations
variable {db : Db} {files : Files}

namespace Agrees

theorem states (h : Agrees db files) : db.state = files.state := congrArg AccountView.state h.view

theorem metadatas (h : Agrees db files) : db.metadata = files.metadata :=
  congrArg AccountView.metadata h.view

theorem rows (h : Agrees db files) (n : Nonce) : db.deltaAt n = files.pullDelta n :=
  congrFun (congrArg AccountView.rows h.view) n

theorem archives (h : Agrees db files) : db.superseded = files.superseded :=
  congrArg AccountView.archive h.view

theorem active (h : Agrees db files) : db.activeExecution = none := by
  simp [Db.activeExecution, h.executions]

theorem unowned (h : Agrees db files) (n : Nonce) : db.owningExecution n = none := by
  simp [Db.owningExecution, h.active]

theorem owner (h : Agrees db files) (n : Nonce) : files.candidateOwner n = none := by
  simp [Files.candidateOwner, h.none_executing]

/-- Both find the same row, or none. -/
theorem row_cases (h : Agrees db files) (n : Nonce) :
    (db.rowAt n = none ∧ files.pullDelta n = none) ∨
    ∃ r, db.rowAt n = some r ∧ files.pullDelta n = some r.delta ∧ r.delta.nonce = n := by
  have hrow := h.rows n
  unfold Db.deltaAt at hrow
  cases hr : db.rowAt n with
  | none => exact .inl ⟨rfl, by rw [← hrow, hr]; rfl⟩
  | some r =>
    have hfile : files.pullDelta n = some r.delta := by rw [← hrow, hr]; rfl
    exact .inr ⟨r, rfl, hfile, Files.pullDelta_eq_some hfile⟩

/-- On one side of `2^63` both read the same queue. -/
theorem queues (h : Agrees db files) (hone : db.view.OneSided) :
    db.queue = files.candidates.map .of := by
  have hcandidates : db.candidates.map (·.delta) = files.candidates := by
    have : IsStrictOrder DeltaObject (fun a b => a.nonce.toNat < b.nonce.toNat) :=
      { irrefl := fun a => lt_irrefl _, trans := fun _ _ _ => lt_trans }
    refine List.Pairwise.eq_of_mem_iff (r := fun a b => a.nonce.toNat < b.nonce.toNat) ?_
      (Table.sorted_select _ _) fun d => ?_
    · rw [List.pairwise_map]
      refine (Table.sorted_select db.deltas _).imp_of_mem fun {a b} ha hb hlt => ?_
      obtain ⟨ha, hac⟩ := Table.mem_select.mp ha
      obtain ⟨hb, hbc⟩ := Table.mem_select.mp hb
      exact nonceColumn_lt_of_side (hone (Db.deltaAt_eq_some.mpr ⟨a, ha, rfl, rfl⟩)
        (Db.deltaAt_eq_some.mpr ⟨b, hb, rfl, rfl⟩) hac hbc) hlt
    · simp only [List.mem_map, Db.candidates, Files.candidates, Table.mem_select,
        Files.mem_iff_pullDelta, ← h.rows, Db.deltaAt_eq_some]
      constructor
      · rintro ⟨r, ⟨hr, hc⟩, rfl⟩
        exact ⟨⟨r, hr, rfl, trivial⟩, hc⟩
      · rintro ⟨⟨r, hr, rfl, _⟩, hc⟩
        exact ⟨r, ⟨hr, hc⟩, rfl⟩
  rw [← hcandidates, List.map_map]
  rfl

theorem setMetadata (h : Agrees db files) (f : AccountMetadata → AccountMetadata) :
    Agrees (db.setMetadata f) (files.setMetadata f) := by
  refine ⟨?_, h.executions, h.none_executing, h.state, ?_⟩
  · ext1
    · exact h.states
    · exact funext h.rows
    · exact h.archives
    · exact congrArg (Option.map f) h.metadatas
  · exact fun hnone => h.metadata (Option.map_eq_none_iff.mp hnone)

/-- The flag is given up under the same condition. -/
theorem flag (h : Agrees db files) :
    Agrees db.clearPendingFlagIfNone files.releasePendingFlag := by
  have hsame : db.hasCandidate = !files.candidates.isEmpty := by
    rw [Bool.eq_iff_iff, Db.hasCandidate_iff_deltaAt, Bool.not_eq_true', Files.candidates_isEmpty]
    simp only [h.rows]
  unfold Db.clearPendingFlagIfNone Files.releasePendingFlag
  rw [hsame]
  cases hempty : files.candidates.isEmpty with
  | false => exact h
  | true => exact h.setMetadata _

/-- Both rewrite the status and the post commitment of a row. -/
theorem rewrite (h : Agrees db files) {nonce : Nonce} {r : DeltaRow} (hr : db.rowAt nonce = some r)
    {p : DeltaStatus → Bool} (hp : p r.delta.status = true) {f : DeltaStatus → DeltaStatus}
    {g : Option Commitment → Option Commitment} {delta : DeltaObject}
    (hd : delta = { r.delta with
      status := f r.delta.status, newCommitment := g r.delta.newCommitment }) :
    Agrees (db.updateRow nonce p f g) (files.writeDelta delta) := by
  have hat : db.deltaAt nonce = some r.delta := by rw [Db.deltaAt, hr]; rfl
  have hn : r.delta.nonce = nonce := by
    obtain ⟨_, _, _, hn⟩ := Db.deltaAt_eq_some.mp hat
    exact hn
  have hnonce : delta.nonce = nonce := by rw [hd]; exact hn
  refine ⟨?_, h.executions, h.none_executing, h.state, h.metadata⟩
  ext1
  · exact h.states
  · funext n
    show (db.updateRow nonce p f g).deltaAt n = (files.writeDelta delta).pullDelta n
    rw [Db.deltaAt_updateRow, Files.pullDelta_writeDelta, ← h.rows, hnonce]
    split
    · next heq =>
      subst heq
      rw [hat, Option.map_some, hn, hp, hd]
      simp [hn]
    · next hne =>
      cases hrow : db.deltaAt n with
      | none => rfl
      | some d =>
        obtain ⟨_, _, _, hdn⟩ := Db.deltaAt_eq_some.mp hrow
        simp [hdn, hne]
  · exact h.archives
  · exact h.metadatas

/-- Both delete the row at a nonce. -/
theorem delete (h : Agrees db files) (nonce : Nonce) {p : DeltaStatus → Bool}
    (hp : ∀ d, db.deltaAt nonce = some d → p d.status = true) :
    Agrees (db.deleteRow nonce p) (files.deleteDelta nonce) := by
  refine ⟨?_, h.executions, h.none_executing, h.state, h.metadata⟩
  ext1
  · exact h.states
  · funext n
    show (db.deleteRow nonce p).deltaAt n = (files.deleteDelta nonce).pullDelta n
    rw [Db.deltaAt_deleteRow, Files.pullDelta_deleteDelta, ← h.rows]
    cases hrow : db.deltaAt n with
    | none => simp
    | some d =>
      obtain ⟨_, _, _, hdn⟩ := Db.deltaAt_eq_some.mp hrow
      split
      · next heq =>
        subst heq
        simp [hdn, hp d hrow]
      · next hne => simp [hdn, hne]
  · exact h.archives
  · exact h.metadatas

/-- A delete that spares the row at its nonce does nothing. -/
theorem spared (h : Agrees db files) {nonce : Nonce} {p : DeltaStatus → Bool}
    (hp : ∀ d, db.deltaAt nonce = some d → p d.status = false) :
    Agrees (db.deleteRow nonce p) files := by
  refine ⟨?_, h.executions, h.none_executing, h.state, h.metadata⟩
  ext1
  · exact h.states
  · funext n
    show (db.deleteRow nonce p).deltaAt n = files.pullDelta n
    rw [Db.deltaAt_deleteRow, ← h.rows]
    cases hrow : db.deltaAt n with
    | none => simp
    | some d =>
      obtain ⟨_, _, _, hdn⟩ := Db.deltaAt_eq_some.mp hrow
      by_cases heq : n = nonce
      · subst heq
        simp [hp d hrow]
      · simp [hdn, heq]
  · exact h.archives
  · exact h.metadatas

/-- Both write a delta at a nonce that is free. -/
theorem insert (h : Agrees db files) {delta : DeltaObject} (hfree : db.deltaAt delta.nonce = none) :
    ∃ db', db.insertDelta delta = some db' ∧ Agrees db' (files.writeDelta delta) := by
  have hrow : db.rowAt delta.nonce = none := Option.map_eq_none_iff.mp hfree
  obtain ⟨db', hdb'⟩ : ∃ db', db.insertDelta delta = some db' := by simp [Db.insertDelta, hrow]
  have hview : db'.view = (files.writeDelta delta).view := by
    have hrows : ∀ n, db'.deltaAt n = (files.writeDelta delta).pullDelta n := fun n => by
      rw [Db.deltaAt_insertDelta hdb', Files.pullDelta_writeDelta, h.rows]
    simp only [Db.insertDelta, hrow] at hdb'
    cases hdb'
    ext1
    · exact h.states
    · exact funext hrows
    · exact h.archives
    · exact h.metadatas
  refine ⟨db', hdb', hview, ?_, h.none_executing, ?_, ?_⟩ <;>
    simp only [Db.insertDelta, hrow] at hdb' <;> cases hdb'
  · exact h.executions
  · exact h.state
  · exact h.metadata

/-- Both archive a delta. -/
theorem archive (h : Agrees db files) (delta : DeltaObject) (now : Time) :
    Agrees { db with superseded := db.superseded ++ [⟨delta, now⟩] }
      (files.archiveDelta delta now) := by
  refine ⟨?_, h.executions, h.none_executing, h.state, h.metadata⟩
  ext1
  · exact h.states
  · exact funext h.rows
  · exact congrArg (· ++ [⟨delta, now⟩]) h.archives
  · exact h.metadatas

end Agrees

/-- Equal answers, and the same account after them. -/
def Same (x : Outcome × Db) (y : Outcome × Files) : Prop := x.1 = y.1 ∧ Agrees x.2 y.2

theorem same_requestCandidateAbandon (h : Agrees db files) (nonce : Nonce) (new : Commitment)
    (now : Time) : Same (db.apply (.requestCandidateAbandon nonce new now))
      (files.apply (.requestCandidateAbandon nonce new now)) := by
  obtain ⟨m, hm⟩ := Option.ne_none_iff_exists'.mp h.metadata
  simp only [Db.apply, Files.apply, Db.requestCandidateAbandon, Files.requestCandidateAbandon, hm,
    h.unowned, h.owner]
  obtain ⟨hr, hf⟩ | ⟨r, hr, hf, hn⟩ := h.row_cases nonce
  · simp only [hr, hf]
    exact ⟨rfl, h⟩
  simp only [hr, hf]
  by_cases hc : r.delta.status.isCandidate = true ∧ r.delta.newCommitment = some new
  · have hc' : ¬(r.delta.status.isCandidate = false ∨ r.delta.newCommitment ≠ some new) := by
      simp [hc.1, hc.2]
    rw [if_pos hc, if_neg hc']
    cases hat : r.delta.status.abandonRequestedAt with
    | some requestedAt => exact ⟨rfl, h⟩
    | none => exact ⟨rfl, h.rewrite hr hc.1 rfl⟩
  · have hc' : r.delta.status.isCandidate = false ∨ r.delta.newCommitment ≠ some new := by
      by_contra hnot
      simp only [not_or, Bool.not_eq_false, not_not] at hnot
      exact hc hnot
    rw [if_neg hc, if_pos hc']
    exact ⟨rfl, h⟩

theorem same_updateCandidateStatus (h : Agrees db files) (nonce : Nonce) (status : DeltaStatus) :
    Same (db.apply (.updateCandidateStatus nonce status))
      (files.apply (.updateCandidateStatus nonce status)) := by
  obtain ⟨m, hm⟩ := Option.ne_none_iff_exists'.mp h.metadata
  simp only [Db.apply, Files.apply, Db.updateCandidateStatus, Files.updateCandidateStatus, hm,
    h.unowned, h.owner, if_true, Option.isSome_none, Bool.false_eq_true, and_false, if_false]
  obtain ⟨hr, hf⟩ | ⟨r, hr, hf, hn⟩ := h.row_cases nonce
  · simp only [hr, hf]
    exact ⟨rfl, h⟩
  simp only [hr, hf]
  cases hc : r.delta.status.isCandidate with
  | false => exact ⟨rfl, h⟩
  | true =>
    have hretained : status.kind = .retained ↔ status.isRetained = true := by
      cases status <;> simp [DeltaStatus.kind, DeltaStatus.isRetained]
    simp only [if_true, hretained, Bool.true_eq_false, if_false]
    split
    · exact ⟨rfl, h⟩
    · exact ⟨rfl, h.rewrite hr hc rfl⟩

theorem same_replaceState (h : Agrees db files) {state : StateObject} (expected : Commitment)
    (hnarrow : state.Narrow) :
    Same (db.apply (.replaceState state expected)) (files.apply (.replaceState state expected)) := by
  obtain ⟨s, hs⟩ := Option.ne_none_iff_exists'.mp h.state
  simp only [Db.apply, Files.apply, Db.replaceState, Files.replaceState, ← h.states, hs]
  by_cases heq : s.commitment = expected
  · rw [if_pos heq, if_neg (not_not.mpr heq)]
    refine ⟨rfl, ?_, h.executions, h.none_executing, by simp [Db.answered], h.metadata⟩
    ext1
    · exact congrArg some hnarrow
    · exact funext h.rows
    · exact h.archives
    · exact h.metadatas
  · rw [if_neg heq, if_pos heq]
    exact ⟨rfl, h⟩

theorem same_discardCandidate (h : Agrees db files) {nonce : Nonce} (kind : DeltaStatusKind)
    (hrow : db.deltaAt nonce ≠ none) :
    Same (db.apply (.discardCandidate nonce kind)) (files.apply (.discardCandidate nonce kind)) := by
  obtain ⟨m, hm⟩ := Option.ne_none_iff_exists'.mp h.metadata
  simp only [Db.apply, Files.apply, Db.discardCandidate, Files.discardCandidate, hm,
    h.unowned, h.owner, if_true, Option.isSome_none, Bool.false_eq_true, and_false, if_false]
  obtain ⟨hr, _⟩ | ⟨r, hr, hf, hn⟩ := h.row_cases nonce
  · exact absurd (Option.map_eq_none_iff.mpr hr) hrow
  have hat : db.deltaAt nonce = some r.delta := by rw [Db.deltaAt, hr]; rfl
  simp only [hr, hf, Option.any_some, bne_iff_ne]
  by_cases hk : r.delta.status.kind = kind
  · rw [if_pos hk, if_neg (not_not.mpr hk)]
    refine ⟨rfl, (h.delete nonce fun d hd => ?_).flag⟩
    rw [hat] at hd
    cases hd
    simpa using hk
  · rw [if_neg hk, if_pos hk]
    exact ⟨rfl, h⟩

/-- Both make room at the nonce of a new candidate, or find it settled. -/
theorem Agrees.supersede (h : Agrees db files) (delta : DeltaObject) (now : Time) (archive : Bool) :
    (files.pullDelta delta.nonce = none ∧
      ∃ db', (db.supersedeParked delta.nonce now archive).insertDelta delta = some db' ∧
        Agrees db' (files.writeDelta delta)) ∨
    ∃ existing, files.pullDelta delta.nonce = some existing ∧
      (existing.status.isParked = true ∧
        (∃ db', (db.supersedeParked delta.nonce now archive).insertDelta delta = some db' ∧
          Agrees db' (((if archive then files.archiveDelta existing now else files).deleteDelta
            delta.nonce).writeDelta delta)) ∨
      existing.status.isParked = false ∧
        (db.supersedeParked delta.nonce now archive).insertDelta delta = none ∧
          Agrees (db.supersedeParked delta.nonce now archive) files) := by
  obtain ⟨hr, hf⟩ | ⟨r, hr, hf, hn⟩ := h.row_cases delta.nonce
  · have hat : db.deltaAt delta.nonce = none := Option.map_eq_none_iff.mpr hr
    have hroom : Agrees (db.supersedeParked delta.nonce now archive) files := by
      have hsame : (if archive then db.archiveParkedDelta delta.nonce now else db) = db := by
        simp [Db.archiveParkedDelta, hr]
      rw [Db.supersedeParked, hsame]
      exact h.spared fun d hd => by rw [hat] at hd; cases hd
    exact .inl ⟨hf, hroom.insert (by rw [hroom.rows, hf])⟩
  · have hat : db.deltaAt delta.nonce = some r.delta := by rw [Db.deltaAt, hr]; rfl
    refine .inr ⟨r.delta, hf, ?_⟩
    cases hparked : r.delta.status.isParked with
    | true =>
      refine .inl ⟨rfl, ?_⟩
      have harchive : Agrees (if archive then db.archiveParkedDelta delta.nonce now else db)
          (if archive then files.archiveDelta r.delta now else files) := by
        cases archive with
        | false => exact h
        | true => simpa [Db.archiveParkedDelta, hr, hparked] using h.archive r.delta now
      have hroom := harchive.delete delta.nonce (p := (·.isParked)) fun d hd => by
        have hsame : db.deltaAt delta.nonce = some d := by
          rw [← hd, harchive.rows, h.rows]
          cases archive <;> rfl
        rw [hat] at hsame
        cases hsame
        exact hparked
      exact hroom.insert (by rw [hroom.rows, Files.pullDelta_deleteDelta, if_pos rfl])
    | false =>
      refine .inr ⟨rfl, ?_⟩
      have hroom : Agrees (db.supersedeParked delta.nonce now archive) files := by
        have hsame : (if archive then db.archiveParkedDelta delta.nonce now else db) = db := by
          simp [Db.archiveParkedDelta, hr, hparked]
        rw [Db.supersedeParked, hsame]
        refine h.spared fun d hd => ?_
        rw [hat] at hd
        cases hd
        exact hparked
      refine ⟨?_, hroom⟩
      obtain ⟨r', hr'⟩ : ∃ r', (db.supersedeParked delta.nonce now archive).rowAt delta.nonce =
          some r' := by
        rw [← Option.isSome_iff_exists, ← Option.isSome_map]
        show ((db.supersedeParked delta.nonce now archive).deltaAt delta.nonce).isSome = true
        rw [hroom.rows, hf]
        rfl
      simp [Db.insertDelta, hr']

theorem same_submitCandidate (h : Agrees db files) (delta : DeltaObject) (now : Time)
    (policy : CandidatePolicy) (hone : db.view.OneSided) :
    Same (db.apply (.submitCandidate delta now policy))
      (files.apply (.submitCandidate delta now policy)) := by
  obtain ⟨m, hm⟩ := Option.ne_none_iff_exists'.mp h.metadata
  obtain ⟨s, hs⟩ := Option.ne_none_iff_exists'.mp h.state
  have hidle : files.executions.find? (·.isActive) = none := by simp [h.none_executing]
  simp only [Db.apply, Files.apply, Db.submitCandidate, Files.submitCandidate, hm, ← h.metadatas,
    ← h.states, hs, h.active, hidle, Option.bind_some, h.queues hone]
  cases CandidateSubmission.refusedWhileInactive m.releasedAt m.pausedAt with
  | some refused => exact ⟨rfl, h⟩
  | none =>
  cases gateCandidateSubmission s.commitment (files.candidates.map .of) delta
      policy.maxPendingCandidates with
  | some refused => exact ⟨rfl, h⟩
  | none =>
  obtain ⟨hf, db', hins, hagree⟩ | ⟨existing, hf, ⟨hparked, db', hins, hagree⟩ |
    ⟨hparked, hins, hagree⟩⟩ := h.supersede delta now policy.archiveSuperseded
  · simp only [hf, hins]
    exact ⟨rfl, hagree.setMetadata _⟩
  · simp only [hf, hins, hparked, if_true]
    refine ⟨rfl, ?_⟩
    have hset := hagree.setMetadata (fun m => { m with hasPendingCandidate := true })
    cases harchive : policy.archiveSuperseded <;> rw [harchive] at hset <;> exact hset
  · simp only [hf, hins, hparked, if_false, Bool.false_eq_true]
    exact ⟨rfl, hagree⟩

/-- The archived copies found at the start are removed, and what was archived
since stays. -/
theorem foldl_removeArchived (q : SupersededDelta → Bool) (l newer : List SupersededDelta) :
    ((l.filter q).foldl (fun kept s => kept.erase s) (l ++ newer)) =
      l.filter (fun s => !q s) ++ newer := by
  have hskip : ∀ (gone : List SupersededDelta) {a : SupersededDelta} {kept : List SupersededDelta},
      a ∉ gone → gone.foldl (fun kept s => kept.erase s) (a :: kept) =
        a :: gone.foldl (fun kept s => kept.erase s) kept := by
    intro gone
    induction gone with
    | nil => intros; rfl
    | cons s gone ih =>
      intro a kept ha
      have hne : a ≠ s := fun heq => ha (heq ▸ List.mem_cons_self)
      have hnot : a ∉ gone := fun hin => ha (.tail _ hin)
      rw [List.foldl_cons, List.erase_cons_tail (by simpa using hne), ih hnot]
      rfl
  induction l with
  | nil => rfl
  | cons a l ih =>
    cases hq : q a with
    | true =>
      rw [List.filter_cons_of_pos hq, List.filter_cons_of_neg (by simp [hq]), List.foldl_cons,
        List.cons_append, List.erase_cons_head, ih]
    | false =>
      rw [List.filter_cons_of_neg (by simp [hq]), List.filter_cons_of_pos (by simp [hq]),
        List.cons_append, hskip _ (fun hin => ?_), ih, List.cons_append]
      rw [(List.mem_filter.mp hin).2] at hq
      cases hq

namespace Files

/-- The signers of a promotion, where it has them. -/
def syncAuth (newAuth : Option Auth) (files : Files) : Files :=
  match newAuth with
  | some auth => files.setMetadata (fun m => { m with auth := auth })
  | none => files

theorem foldl_map_removeArchived (restored : List SupersededDelta) (files : Files) :
    (restored.map removeArchived).foldl (fun f write => write f) files =
      { files with superseded := restored.foldl (fun kept s => kept.erase s) files.superseded } := by
  induction restored generalizing files with
  | nil => rfl
  | cons s restored ih => exact ih _

/-- The writes of a promotion, in an order that starts with the row. -/
theorem foldl_promotionWrites (p : CandidatePromotion) (restored : List SupersededDelta)
    (hidle : files.executions = []) :
    (promotionWrites p (restored.map removeArchived)).foldl (fun f write => write f) files =
      releasePendingFlag (syncAuth p.newAuth (writeState p.state
        { files.writeDelta p.delta with
          superseded := restored.foldl (fun kept s => kept.erase s) files.superseded })) := by
  have hcommit : ∀ {f : Files}, f.executions = [] →
      f.commitPromotedExecution p.delta.nonce p.state.commitment p.now = f := by
    intro f hf
    simp [commitPromotedExecution, promotedExecution, hf]
  have hrelease : ∀ {f : Files}, f.executions = [] → f.releasePendingFlag.executions = [] := by
    intro f hf
    unfold releasePendingFlag
    split <;> exact hf
  simp only [promotionWrites, List.foldl_append, foldl_map_removeArchived]
  cases p.newAuth with
  | none => exact hcommit (hrelease hidle)
  | some auth => exact hcommit (hrelease hidle)

end Files

/-- A promotion, once its row is written on both sides. -/
theorem Agrees.promoted {db₁ : Db} {files₁ : Files} {s : StateObject} (h : Agrees db₁ files₁)
    {p : CandidatePromotion} (hnarrow : p.state.Narrow) (hm : db.metadata ≠ none)
    (hwrite : db.writeCanonical p = some db₁) (hs : db₁.state = some s)
    (hbase : s.commitment = p.delta.prevCommitment ∨ s.commitment = p.state.commitment) :
    ∃ db', db.promoteCandidate true p = some (.applied false, db') ∧ Agrees db'
      (Files.releasePendingFlag (Files.syncAuth p.newAuth (files₁.writeState p.state))) := by
  obtain ⟨m, hm⟩ := Option.ne_none_iff_exists'.mp hm
  have hstate : Agrees { db₁ with state := some p.state.asStored } (files₁.writeState p.state) := by
    refine ⟨?_, h.executions, h.none_executing, nofun, h.metadata⟩
    ext1
    · exact congrArg some hnarrow
    · exact funext h.rows
    · exact h.archives
    · exact h.metadatas
  simp only [Db.promoteCandidate, hm, if_true, hwrite, hs, if_pos hbase]
  cases p.newAuth with
  | none =>
    refine ⟨_, ?_, hstate.flag⟩
    simp [Db.commitPromotedExecution, hstate.unowned]
  | some auth =>
    have hauth := hstate.setMetadata (fun m => { m with auth := auth })
    refine ⟨_, ?_, hauth.flag⟩
    simp [Db.commitPromotedExecution, hauth.unowned]

/-- A promotion whose base is elsewhere is refused. -/
theorem Db.promoteCandidate_stale {db₁ : Db} {s : StateObject} {p : CandidatePromotion}
    (hm : db.metadata ≠ none) (hwrite : db.writeCanonical p = some db₁) (hs : db₁.state = some s)
    (hbase : ¬(s.commitment = p.delta.prevCommitment ∨ s.commitment = p.state.commitment)) :
    db.promoteCandidate true p = some (.staleBase, db) := by
  obtain ⟨m, hm⟩ := Option.ne_none_iff_exists'.mp hm
  simp only [Db.promoteCandidate, hm, if_true, hwrite, hs, if_neg hbase]

theorem Db.promoteCandidate_refused {p : CandidatePromotion} (hm : db.metadata ≠ none)
    (hwrite : db.writeCanonical p = none) :
    db.promoteCandidate true p = some (.notCandidate, db) := by
  obtain ⟨m, hm⟩ := Option.ne_none_iff_exists'.mp hm
  simp only [Db.promoteCandidate, hm, if_true, hwrite]

theorem Db.writeCanonical_flip (db : Db) {p : CandidatePromotion} (hs : p.source ≠ .superseded) :
    db.writeCanonical p = match db.rowAt p.delta.nonce with
      | none => none
      | some r =>
        if p.source.matches r.delta.status then
          some (db.updateRow p.delta.nonce p.source.matches (fun _ => p.delta.status)
            (fun _ => p.delta.newCommitment))
        else none := by
  unfold Db.writeCanonical
  split
  · next hsource => exact absurd hsource hs
  · rfl

/-- A promotion that flips the row it targets. -/
theorem same_flip (h : Agrees db files) {p : CandidatePromotion} (hs : p.source ≠ .superseded)
    (hnarrow : p.state.Narrow) (hown : ∀ d, db.deltaAt p.delta.nonce = some d →
      p.source.matches d.status = true →
      d.prevCommitment = p.delta.prevCommitment ∧ d.deltaPayload = p.delta.deltaPayload) :
    Same (db.apply (.promoteCandidate p)) (files.apply (.promoteCandidate p)) := by
  obtain ⟨s, hstate⟩ := Option.ne_none_iff_exists'.mp h.state
  have hfile : files.state = some s := h.states ▸ hstate
  have hflip := Db.writeCanonical_flip db hs
  simp only [Db.apply, Files.apply, Files.promoteCandidate, if_neg hs]
  obtain ⟨hr, hf⟩ | ⟨r, hr, hf, hn⟩ := h.row_cases p.delta.nonce
  · rw [hr] at hflip
    rw [Db.promoteCandidate_refused h.metadata hflip, hf]
    exact ⟨rfl, h⟩
  rw [hr] at hflip
  by_cases hmatch : p.source.matches r.delta.status = true
  swap
  · simp only [hmatch, if_false, Bool.false_eq_true] at hflip
    simp only [Db.promoteCandidate_refused h.metadata hflip, hf, hmatch, if_false,
      Bool.false_eq_true]
    exact ⟨rfl, h⟩
  simp only [hmatch, if_true] at hflip
  obtain ⟨hprev, hpayload⟩ := hown r.delta (by rw [Db.deltaAt, hr]; rfl) hmatch
  have hrow : Agrees (db.updateRow p.delta.nonce p.source.matches (fun _ => p.delta.status)
      (fun _ => p.delta.newCommitment)) (files.writeDelta p.delta) := by
    refine h.rewrite hr hmatch ?_
    simp only [hn, hprev, hpayload]
  simp only [hf, hmatch, if_true, hfile]
  by_cases hbase : s.commitment = p.delta.prevCommitment ∨ s.commitment = p.state.commitment
  · have hbase' : ¬(s.commitment ≠ p.state.commitment ∧ s.commitment ≠ p.delta.prevCommitment) :=
      fun hne => hbase.elim hne.2 hne.1
    obtain ⟨db', hpromote, hagree⟩ := hrow.promoted hnarrow h.metadata hflip hstate hbase
    rw [if_neg hbase', hpromote]
    refine ⟨?_, ?_⟩
    · simp [Db.answered, Files.answered, Files.promotedExecution, h.none_executing]
    · have hwrites := Files.foldl_promotionWrites p [] h.none_executing
      simp only [Files.answered, Plan.run, List.take_length]
      exact hwrites ▸ hagree
  · have hbase' : s.commitment ≠ p.state.commitment ∧ s.commitment ≠ p.delta.prevCommitment :=
      ⟨fun heq => hbase (.inr heq), fun heq => hbase (.inl heq)⟩
    rw [if_pos hbase', Db.promoteCandidate_stale h.metadata hflip hstate hbase]
    exact ⟨rfl, h⟩

/-- Both write a delta over whatever is at its nonce. -/
theorem Agrees.overwrite (h : Agrees db files) (delta : DeltaObject) :
    ∃ db', (db.deleteRow delta.nonce (fun _ => true)).insertDelta delta = some db' ∧
      db'.state = db.state ∧ Agrees db' (files.writeDelta delta) := by
  have hdelete := h.delete delta.nonce (p := fun _ => true) fun _ _ => rfl
  obtain ⟨db', hins, hagree⟩ := hdelete.insert
    (by rw [hdelete.rows, Files.pullDelta_deleteDelta, if_pos rfl])
  refine ⟨db', hins, ?_, ?_, hagree.executions, h.none_executing, hagree.state, hagree.metadata⟩
  · exact hagree.states.trans h.states.symm
  · rw [hagree.view]
    ext1
    · rfl
    · funext n
      show ((files.deleteDelta delta.nonce).writeDelta delta).pullDelta n =
        (files.writeDelta delta).pullDelta n
      rw [Files.pullDelta_writeDelta, Files.pullDelta_writeDelta, Files.pullDelta_deleteDelta]
      split <;> rfl
    · rfl
    · rfl

/-- Both archive a parked row. -/
theorem Agrees.archiveParked (h : Agrees db files) {nonce : Nonce} (now : Time)
    (hparked : (files.pullDelta nonce).all (·.status.isParked) = true) :
    Agrees (db.archiveParkedDelta nonce now) (match files.pullDelta nonce with
      | some existing => files.archiveDelta existing now
      | none => files) := by
  obtain ⟨hr, hf⟩ | ⟨r, hr, hf, _⟩ := h.row_cases nonce
  · rw [Db.archiveParkedDelta, hr, hf]
    exact h
  · rw [hf, Option.all_some] at hparked
    rw [Db.archiveParkedDelta, hr, hf]
    simpa only [hparked, if_true] using h.archive r.delta now

/-- Both restore the archived delta over the parked row at its nonce. -/
theorem Agrees.restored (h : Agrees db files) {delta : DeltaObject} (hnew : delta.newCommitment ≠ none)
    (now : Time) (hparked : (files.pullDelta delta.nonce).all (·.status.isParked) = true)
    (harchived : (files.superseded.filter (Files.isArchived delta)).isEmpty = false)
    {archived : Files} (heq : archived = match files.pullDelta delta.nonce with
      | some existing => files.archiveDelta existing now
      | none => files) :
    ∃ db₁, db.restoreSuperseded delta now = some db₁ ∧ db₁.state = db.state ∧
      Agrees db₁ { archived.writeDelta delta with
        superseded := (files.superseded.filter (Files.isArchived delta)).foldl
          (fun kept s => kept.erase s) archived.superseded } := by
  have hsame : Db.restoreSuperseded.isArchived delta = Files.isArchived delta := by
    funext s
    obtain ⟨new, hnew⟩ := Option.ne_none_iff_exists'.mp hnew
    simp [Db.restoreSuperseded.isArchived, Files.isArchived, hnew]
  have hany : db.superseded.any (Files.isArchived delta) = true := by
    rw [h.archives, List.any_eq_true]
    obtain ⟨s, hs⟩ := (List.isEmpty_eq_false_iff_exists_mem).mp harchived
    exact ⟨s, List.mem_filter.mp hs⟩
  have hall : (db.rowAt delta.nonce).all (·.delta.status.isParked) = true := by
    obtain ⟨hr, _⟩ | ⟨r, hr, hf, _⟩ := h.row_cases delta.nonce
    · rw [hr]
      rfl
    · rw [hf] at hparked
      rw [hr]
      exact hparked
  have hkept : Agrees
      { db with superseded := db.superseded.filter (fun s => !Files.isArchived delta s) }
      { files with superseded := files.superseded.filter (fun s => !Files.isArchived delta s) } := by
    refine ⟨?_, h.executions, h.none_executing, h.state, h.metadata⟩
    ext1
    · exact h.states
    · exact funext h.rows
    · exact congrArg (List.filter _) h.archives
    · exact h.metadatas
  have harchive := hkept.archiveParked now hparked
  obtain ⟨db₁, hwrite, hstate, hagree⟩ := harchive.overwrite delta
  simp only [Db.restoreSuperseded, hall, hsame, hany, if_true]
  refine ⟨db₁, hwrite, hstate.trans (harchive.states.trans ?_), ?_⟩
  · rw [h.states]
    split <;> rfl
  -- removing the archived copies and archiving the parked row commute
  have hremoved := fun newer =>
    foldl_removeArchived (Files.isArchived delta) files.superseded newer
  have hpull : Files.pullDelta { files with
      superseded := files.superseded.filter (fun s => !Files.isArchived delta s) } delta.nonce =
      files.pullDelta delta.nonce := rfl
  rw [hpull] at hagree
  subst heq
  cases hf : files.pullDelta delta.nonce with
  | none =>
    rw [hf] at hagree
    have hnone := hremoved []
    rw [List.append_nil, List.append_nil] at hnone
    simp only [hnone]
    exact hagree
  | some existing =>
    rw [hf] at hagree
    have hone := hremoved [⟨existing, now⟩]
    simp only [Files.archiveDelta, hone]
    exact hagree

theorem Db.writeCanonical_superseded (db : Db) {p : CandidatePromotion} (hs : p.source = .superseded) :
    db.writeCanonical p = db.restoreSuperseded p.delta p.now := by
  simp only [Db.writeCanonical, hs]

/-- A promotion that restores an archived delta. -/
theorem same_restore (h : Agrees db files) {p : CandidatePromotion} (hs : p.source = .superseded)
    (hnarrow : p.state.Narrow) (hnew : p.delta.newCommitment ≠ none)
    (hresumed : ∀ s, db.state = some s → s.commitment = p.state.commitment →
      s.commitment = p.delta.prevCommitment) :
    Same (db.apply (.promoteCandidate p)) (files.apply (.promoteCandidate p)) := by
  obtain ⟨s, hstate⟩ := Option.ne_none_iff_exists'.mp h.state
  have hfile : files.state = some s := h.states ▸ hstate
  have hwrite := Db.writeCanonical_superseded db hs
  have hmatches : p.source.matches = (·.isParked) := by
    funext status
    simp [hs, PromotableKind.matches, DeltaStatus.isParked]
  simp only [Db.apply, Files.apply, Files.promoteCandidate, if_pos hs, Files.restoreSuperseded,
    hmatches]
  have hnot : (files.pullDelta p.delta.nonce).any (fun d => !d.status.isParked) =
      !(files.pullDelta p.delta.nonce).all (·.status.isParked) := by
    cases files.pullDelta p.delta.nonce <;> simp
  cases hparked : (files.pullDelta p.delta.nonce).all (·.status.isParked) with
  | false =>
    have hrefused : db.restoreSuperseded p.delta p.now = none := by
      obtain ⟨hr, hf⟩ | ⟨r, hr, hf, _⟩ := h.row_cases p.delta.nonce
      · simp [hf] at hparked
      · simp only [hf, Option.all_some] at hparked
        simp [Db.restoreSuperseded, hr, hparked]
    rw [hnot, hparked, Db.promoteCandidate_refused h.metadata (hwrite.trans hrefused)]
    exact ⟨rfl, h⟩
  | true =>
  rw [hnot, hparked]
  cases harchived : (files.superseded.filter (Files.isArchived p.delta)).isEmpty with
  | true =>
    have hrefused : db.restoreSuperseded p.delta p.now = none := by
      have hnone : db.superseded.any (Db.restoreSuperseded.isArchived p.delta) = false := by
        rw [h.archives, List.any_eq_false]
        intro a ha hin
        have hempty := List.isEmpty_iff.mp harchived
        refine List.filter_eq_nil_iff.mp hempty a ha ?_
        simp only [Db.restoreSuperseded.isArchived, Bool.and_eq_true] at hin
        simp only [Files.isArchived, Bool.and_eq_true]
        exact hin.1
      simp [Db.restoreSuperseded, hnone]
    rw [Db.promoteCandidate_refused h.metadata (hwrite.trans hrefused)]
    exact ⟨rfl, h⟩
  | false =>
  obtain ⟨db₁, hrestore, hstate₁, hagree⟩ := h.restored hnew p.now hparked harchived rfl
  have hs₁ : db₁.state = some s := hstate₁.trans hstate
  simp only [Bool.not_true, Bool.false_eq_true, if_false, hfile]
  by_cases hbase : s.commitment = p.delta.prevCommitment
  · obtain ⟨db', hpromote, hfinal⟩ := hagree.promoted hnarrow h.metadata (hwrite.trans hrestore) hs₁
      (.inl hbase)
    rw [if_neg (not_not.mpr hbase), hpromote]
    refine ⟨?_, ?_⟩
    · simp [Db.answered, Files.answered, Files.promotedExecution, h.none_executing]
    · simp only [Files.answered, Plan.run, List.take_length, List.foldl_append]
      cases hf : files.pullDelta p.delta.nonce with
      | none =>
        rw [hf] at hfinal
        have hwrites := Files.foldl_promotionWrites p
          (files.superseded.filter (Files.isArchived p.delta)) h.none_executing
        exact hwrites ▸ hfinal
      | some existing =>
        rw [hf] at hfinal
        have hidle : (files.archiveDelta existing p.now).executions = [] := h.none_executing
        have hwrites := Files.foldl_promotionWrites p
          (files.superseded.filter (Files.isArchived p.delta)) hidle
        simp only [List.foldl_cons, List.foldl_nil]
        exact hwrites ▸ hfinal
  · have hstale : ¬(s.commitment = p.delta.prevCommitment ∨ s.commitment = p.state.commitment) :=
      fun heq => heq.elim hbase fun htarget => hbase (hresumed s hstate htarget)
    rw [if_pos hbase, Db.promoteCandidate_stale h.metadata (hwrite.trans hrestore) hs₁ hstale]
    exact ⟨rfl, h⟩

/-- An operation that is uniform is answered alike and leaves the same account. -/
theorem same_apply (h : Agrees db files) {op : LifecycleOp} (hop : op.Uniform db.view) :
    Same (db.apply op) (files.apply op) := by
  cases op with
  | submitCandidate delta now policy => exact same_submitCandidate h delta now policy hop
  | requestCandidateAbandon nonce new now => exact same_requestCandidateAbandon h nonce new now
  | updateCandidateStatus nonce status => exact same_updateCandidateStatus h nonce status
  | promoteCandidate p =>
    obtain ⟨hnarrow, hop⟩ := hop
    by_cases hs : p.source = .superseded
    · rw [hs] at hop
      exact same_restore h hs hnarrow hop.1 hop.2
    · refine same_flip h hs hnarrow ?_
      cases hsource : p.source <;> rw [hsource] at hop <;> first
        | exact absurd hsource hs
        | exact hop
  | discardCandidate nonce kind => exact same_discardCandidate h kind hop
  | replaceState state expected => exact same_replaceState h expected hop

end Operations

/-! ## Sequences -/

/-- Every operation of a sequence is uniform when its turn comes. -/
def UniformRun : Db → List LifecycleOp → Prop
  | _, [] => True
  | db, op :: ops => op.Uniform db.view ∧ UniformRun (db.apply op).2 ops

theorem Agrees.applyAll {db : Db} {files : Files} (h : Agrees db files) {ops : List LifecycleOp}
    (hops : UniformRun db ops) :
    (db.applyAll ops).1 = (files.applyAll ops).1 ∧
      Agrees (db.applyAll ops).2 (files.applyAll ops).2 := by
  induction ops generalizing db files with
  | nil => exact ⟨rfl, h⟩
  | cons op ops ih =>
    obtain ⟨hop, hrest⟩ := hops
    obtain ⟨houtcome, hagree⟩ := same_apply h hop
    obtain ⟨houtcomes, hfinal⟩ := ih hagree hrest
    exact ⟨congrArg₂ List.cons houtcome houtcomes, hfinal⟩

/-- The rows of an account that was just configured. -/
def Db.configured (state : StateObject) (metadata : AccountMetadata) : Db :=
  { Db.empty with state := some state, metadata := some metadata }

/-- Its files. -/
def Files.configured (state : StateObject) (metadata : AccountMetadata) : Files :=
  ⟨.empty, [], some state, some metadata, [], none, []⟩

namespace Demo

def storedState : StateObject := ⟨"s", "s", some 0⟩

end Demo

end Guardian
