import Guardian.Storage.FileExecution
import Guardian.Storage.PayloadMap

/- The filesystem backend never looks into a payload: what `Storage.PayloadMap`
   says of the transactions on Postgres, of the operations on files. An operation
   over rewritten files makes the same writes of rewritten records, so run to its
   end it leaves the rewritten files.

   One operation needs more than a comparison write by write. A restored row's
   archived copies are removed by what they are, payload included; but they are
   all the copies there were with a nonce and two commitments, so what is left
   does not depend on payloads (`removeArchived_all`). -/
namespace Guardian

/-! ## Completed plans -/

namespace Plan
variable {α : Type}

/-- The answer and the files of an operation that makes all its writes. -/
def complete (plan : Plan α) (files : Files) : α × Files :=
  (plan.answer, plan.writes.foldl (fun f write => write f) files)

@[simp] theorem complete_reply (a : α) (files : Files) : (reply a).complete files = (a, files) := rfl

end Plan

namespace Files

/-- Every payload rewritten. -/
def mapPayload (g : PayloadMap) (files : Files) : Files :=
  { files with
    deltas := files.deltas.map (·.mapPayload g) (fun _ => rfl)
    superseded := files.superseded.map (·.mapPayload g)
    state := files.state.map (·.mapPayload g) }

section Reads
variable (g : PayloadMap) (files : Files)

@[simp] theorem metadata_mapPayload : (files.mapPayload g).metadata = files.metadata := rfl

@[simp] theorem executions_mapPayload : (files.mapPayload g).executions = files.executions := rfl

@[simp] theorem admission_mapPayload : (files.mapPayload g).admission = files.admission := rfl

@[simp] theorem proposals_mapPayload : (files.mapPayload g).proposals = files.proposals := rfl

@[simp] theorem state_mapPayload : (files.mapPayload g).state = files.state.map (·.mapPayload g) := rfl

@[simp] theorem superseded_mapPayload :
    (files.mapPayload g).superseded = files.superseded.map (·.mapPayload g) := rfl

@[simp] theorem activeExecution_mapPayload :
    (files.mapPayload g).activeExecution = files.activeExecution := rfl

@[simp] theorem candidateOwner_mapPayload (nonce : Nonce) :
    (files.mapPayload g).candidateOwner nonce = files.candidateOwner nonce := rfl

@[simp] theorem promotedExecution_mapPayload (nonce : Nonce) (promoted : Commitment) :
    (files.mapPayload g).promotedExecution nonce promoted = files.promotedExecution nonce promoted :=
  rfl

@[simp] theorem resolvable_mapPayload (r : ExecutionResolution) :
    (files.mapPayload g).resolvable r = files.resolvable r := rfl

@[simp] theorem pullDelta_mapPayload (nonce : Nonce) :
    (files.mapPayload g).pullDelta nonce = (files.pullDelta nonce).map (·.mapPayload g) :=
  Table.find?_map (f := DeltaObject.mapPayload g) (fun _ => rfl) files.deltas nonce.toNat

@[simp] theorem candidates_mapPayload :
    (files.mapPayload g).candidates = files.candidates.map (·.mapPayload g) :=
  Table.select_map (f := DeltaObject.mapPayload g) (fun _ => rfl) files.deltas fun _ => rfl

@[simp] theorem queue_mapPayload :
    (files.mapPayload g).candidates.map QueuedCandidate.of = files.candidates.map .of := by
  rw [candidates_mapPayload, List.map_map]
  rfl

@[simp] theorem candidates_isEmpty_mapPayload :
    (files.mapPayload g).candidates.isEmpty = files.candidates.isEmpty := by
  rw [candidates_mapPayload, List.isEmpty_map]

end Reads

/-! ## Writes -/

section Writes
variable (g : PayloadMap) (files : Files)

theorem deleteDelta_mapPayload (nonce : Nonce) :
    (files.mapPayload g).deleteDelta nonce = (files.deleteDelta nonce).mapPayload g := by
  have hrows := Table.delete_map (f := DeltaObject.mapPayload g) (fun _ => rfl) files.deltas
    (p := (·.nonce == nonce)) fun _ => rfl
  simp only [deleteDelta, mapPayload, hrows]

theorem writeDelta_mapPayload (delta : DeltaObject) :
    (files.mapPayload g).writeDelta (delta.mapPayload g) =
      (files.writeDelta delta).mapPayload g := by
  have hdeleted := Table.delete_map (f := DeltaObject.mapPayload g) (fun _ => rfl) files.deltas
    (p := (·.nonce == delta.nonce)) fun _ => rfl
  have hrows := Table.insert_map (f := DeltaObject.mapPayload g) (fun _ => rfl)
    (files.deltas.delete (·.nonce == delta.nonce)) delta
  simp only [writeDelta, mapPayload, DeltaObject.mapPayload_nonce, hdeleted, hrows]

theorem archiveDelta_mapPayload (delta : DeltaObject) (now : Time) :
    (files.mapPayload g).archiveDelta (delta.mapPayload g) now =
      (files.archiveDelta delta now).mapPayload g := by
  simp only [archiveDelta, mapPayload, List.map_append, List.map_cons, List.map_nil]
  rfl

theorem writeState_mapPayload (state : StateObject) :
    (files.mapPayload g).writeState (state.mapPayload g) = (files.writeState state).mapPayload g :=
  rfl

theorem releasePendingFlag_mapPayload :
    (files.mapPayload g).releasePendingFlag = files.releasePendingFlag.mapPayload g := by
  unfold releasePendingFlag
  rw [candidates_isEmpty_mapPayload]
  split <;> rfl

theorem commitPromotedExecution_mapPayload (nonce : Nonce) (promoted : Commitment) (now : Time) :
    (files.mapPayload g).commitPromotedExecution nonce promoted now =
      (files.commitPromotedExecution nonce promoted now).mapPayload g := by
  unfold commitPromotedExecution
  rw [promotedExecution_mapPayload]
  split <;> rfl

/-- Writes of rewritten records, one by one. -/
def Match (g : PayloadMap) (writes' writes : List (Files → Files)) : Prop :=
  List.Forall₂ (fun write' write => ∀ files : Files,
    write' (files.mapPayload g) = (write files).mapPayload g) writes' writes

variable {g} in
theorem Match.foldl {writes' writes : List (Files → Files)} (h : Match g writes' writes)
    (files : Files) : writes'.foldl (fun f write => write f) (files.mapPayload g) =
      (writes.foldl (fun f write => write f) files).mapPayload g := by
  induction h generalizing files with
  | nil => rfl
  | cons hwrite _ ih =>
    rw [List.foldl_cons, List.foldl_cons, hwrite files]
    exact ih _

variable {g} in
/-- An operation that makes matching writes leaves the rewritten files. -/
theorem Match.complete {α : Type} {writes' writes : List (Files → Files)}
    (h : Match g writes' writes) (a : α) (files : Files) :
    (Plan.mk writes' a).complete (files.mapPayload g) =
      Prod.map id (·.mapPayload g) ((Plan.mk writes a).complete files) :=
  Prod.ext rfl (h.foldl files)

end Writes

/-! ## Candidates -/

section Candidates
variable (g : PayloadMap) (files : Files)

theorem requestCandidateAbandon_mapPayload (nonce : Nonce) (new : Commitment) (now : Time) :
    ((files.mapPayload g).requestCandidateAbandon nonce new now).complete (files.mapPayload g) =
      Prod.map id (·.mapPayload g)
        ((files.requestCandidateAbandon nonce new now).complete files) := by
  unfold requestCandidateAbandon
  rw [candidateOwner_mapPayload, pullDelta_mapPayload]
  cases files.candidateOwner nonce with
  | some proposalId => rfl
  | none =>
    cases files.pullDelta nonce with
    | none => rfl
    | some delta =>
      simp only [Option.map_some, DeltaObject.mapPayload_status,
        DeltaObject.mapPayload_newCommitment]
      by_cases hother : delta.status.isCandidate = false ∨ delta.newCommitment ≠ some new
      · simp only [hother, if_true]
        rfl
      · simp only [hother, if_false]
        cases delta.status.abandonRequestedAt with
        | some requestedAt => rfl
        | none =>
          exact Match.complete (.cons (fun f => f.writeDelta_mapPayload g
            { delta with status := delta.status.withAbandonRequested now }) .nil) _ files

theorem submitCandidate_mapPayload (delta : DeltaObject) (now : Time) (policy : CandidatePolicy) :
    ((files.mapPayload g).submitCandidate (delta.mapPayload g) now policy).map
        (·.complete (files.mapPayload g)) =
      ((files.submitCandidate delta now policy).map (·.complete files)).map
        (Prod.map id (·.mapPayload g)) := by
  have hwrite : ∀ f : Files, (f.mapPayload g).writeDelta (delta.mapPayload g) =
      (f.writeDelta delta).mapPayload g := fun f => f.writeDelta_mapPayload g delta
  unfold submitCandidate
  simp only [metadata_mapPayload, state_mapPayload, executions_mapPayload, queue_mapPayload,
    gate_mapPayload, DeltaObject.mapPayload_nonce, pullDelta_mapPayload]
  cases files.metadata.bind (fun m =>
      CandidateSubmission.refusedWhileInactive m.releasedAt m.pausedAt) with
  | some refused => rfl
  | none =>
    cases files.state with
    | none => rfl
    | some state =>
      cases files.executions.find? (·.isActive) with
      | some active => rfl
      | none =>
        simp only [Option.map_some, StateObject.mapPayload_commitment]
        cases gateCandidateSubmission state.commitment (files.candidates.map .of) delta
            policy.maxPendingCandidates with
        | some refused => rfl
        | none =>
          cases files.pullDelta delta.nonce with
          | none =>
            refine congrArg some (Match.complete (.cons hwrite (.cons ?_ .nil)) _ files)
            exact fun f => rfl
          | some existing =>
            simp only [Option.map_some, DeltaObject.mapPayload_status]
            by_cases hparked : existing.status.isParked = true
            · -- a parked row under the nonce makes way for the candidate
              simp only [hparked, if_true]
              refine congrArg some (Match.complete (List.rel_append ?_ ?_) _ files)
              · cases policy.archiveSuperseded with
                | true => exact .cons (fun f => f.archiveDelta_mapPayload g existing now) .nil
                | false => exact .nil
              · refine .cons (fun f => f.deleteDelta_mapPayload g delta.nonce) (.cons hwrite
                  (.cons ?_ .nil))
                exact fun f => rfl
            · simp only [hparked]
              rfl

theorem discardCandidate_mapPayload (nonce : Nonce) (kind : DeltaStatusKind) :
    ((files.mapPayload g).discardCandidate nonce kind).complete (files.mapPayload g) =
      Prod.map id (·.mapPayload g) ((files.discardCandidate nonce kind).complete files) := by
  have hother : ((files.pullDelta nonce).map (·.mapPayload g)).any
      (fun existing => existing.status.kind != kind) =
      (files.pullDelta nonce).any (fun existing => existing.status.kind != kind) := by
    cases files.pullDelta nonce <;> rfl
  unfold discardCandidate
  rw [candidateOwner_mapPayload, pullDelta_mapPayload, hother]
  by_cases howned : kind = .candidate ∧ (files.candidateOwner nonce).isSome = true
  · simp only [howned]
    rfl
  · simp only [howned, if_false]
    cases (files.pullDelta nonce).any (fun existing => existing.status.kind != kind) with
    | true => rfl
    | false =>
      exact Match.complete (.cons (fun f => f.deleteDelta_mapPayload g nonce)
        (.cons (fun f => f.releasePendingFlag_mapPayload g) .nil)) _ files

theorem updateCandidateStatus_mapPayload (nonce : Nonce) (status : DeltaStatus) :
    ((files.mapPayload g).updateCandidateStatus nonce status).complete (files.mapPayload g) =
      Prod.map id (·.mapPayload g) ((files.updateCandidateStatus nonce status).complete files) := by
  unfold updateCandidateStatus
  rw [candidateOwner_mapPayload, pullDelta_mapPayload]
  cases files.pullDelta nonce with
  | none => rfl
  | some delta =>
    simp only [Option.map_some, DeltaObject.mapPayload_status]
    by_cases hother : delta.status.isCandidate = false
    · simp only [hother, if_true]
      rfl
    simp only [hother]
    by_cases howned : status.isCandidate = false ∧ (files.candidateOwner nonce).isSome = true
    · simp only [howned]
      rfl
    simp only [howned, if_false]
    by_cases hkept : status.isRetained = true ∧ delta.status.abandonRequestedAt.isSome = true
    · simp only [hkept]
      rfl
    simp only [hkept, if_false]
    exact Match.complete (.cons (fun f => f.writeDelta_mapPayload g { delta with
      status := status.withAbandonRequestPreservedFrom delta.status.abandonRequestedAt }) .nil)
      _ files

theorem replaceState_mapPayload (state : StateObject) (expected : Commitment) :
    ((files.mapPayload g).replaceState (state.mapPayload g) expected).map
        (·.complete (files.mapPayload g)) =
      ((files.replaceState state expected).map (·.complete files)).map
        (Prod.map id (·.mapPayload g)) := by
  unfold replaceState
  rw [state_mapPayload]
  cases files.state with
  | none => rfl
  | some current =>
    simp only [Option.map_some, StateObject.mapPayload_commitment]
    by_cases hexpected : current.commitment = expected
    · simp only [hexpected, ne_eq, not_true_eq_false, if_false]
      exact congrArg some (Match.complete (.cons (fun f => f.writeState_mapPayload g state) .nil)
        _ files)
    · simp only [hexpected, ne_eq, not_false_eq_true, if_true]
      rfl

end Candidates

/-! ## Promotions -/

/-- Erasing elements that are not the head leaves the head. -/
theorem foldl_erase_cons {α : Type} [DecidableEq α] {a : α} {removed : List α}
    (h : a ∉ removed) (l : List α) :
    removed.foldl List.erase (a :: l) = a :: removed.foldl List.erase l := by
  induction removed generalizing l with
  | nil => rfl
  | cons b removed ih =>
    have hne : ¬(a == b) = true := by
      rw [beq_iff_eq]
      exact fun heq => h (heq ▸ List.mem_cons_self)
    rw [List.foldl_cons, List.foldl_cons, List.erase_cons_tail hne]
    exact ih (fun hmem => h (.tail _ hmem)) _

/-- Erasing every element with `p`, one by one. -/
theorem foldl_erase_filter {α : Type} [DecidableEq α] (p : α → Bool) (l rest : List α) :
    (l.filter p).foldl List.erase (l ++ rest) = l.filter (fun a => !p a) ++ rest := by
  induction l with
  | nil => rfl
  | cons a l ih =>
    cases hp : p a with
    | true =>
      rw [List.filter_cons_of_pos hp, List.filter_cons_of_neg (by simp [hp]), List.cons_append,
        List.foldl_cons, List.erase_cons_head]
      exact ih
    | false =>
      have hnot : a ∉ l.filter p := fun hmem => by
        rw [List.mem_filter, hp] at hmem
        cases hmem.2
      rw [List.filter_cons_of_neg (by simp [hp]), List.filter_cons_of_pos (by simp [hp]),
        List.cons_append, foldl_erase_cons hnot, ih, List.cons_append]

/-- The archived copies with `p` are removed, whatever was archived since. -/
theorem removeArchived_all (p : SupersededDelta → Bool) {files : Files}
    {archived rest : List SupersededDelta} (h : files.superseded = archived ++ rest) :
    ((archived.filter p).map removeArchived).foldl (fun f write => write f) files =
      { files with superseded := archived.filter (fun a => !p a) ++ rest } := by
  have hfold : ∀ (removed : List SupersededDelta) (f : Files),
      (removed.map removeArchived).foldl (fun f write => write f) f =
        { f with superseded := removed.foldl List.erase f.superseded } := by
    intro removed
    induction removed with
    | nil => exact fun f => rfl
    | cons a removed ih => exact fun f => ih (f.removeArchived a)
  rw [hfold, h, foldl_erase_filter]

section Promotions
variable (g : PayloadMap) (files : Files)

/-- What a promotion writes before it cleans up. -/
def promotionStart (p : CandidatePromotion) : List (Files → Files) :=
  let auth := match p.newAuth with
    | some auth => [setMetadata (fun m => { m with auth := auth })]
    | none => []
  [writeState p.state] ++ auth ++ [writeDelta p.delta]

/-- What it writes afterwards. -/
def promotionEnd (p : CandidatePromotion) : List (Files → Files) :=
  [releasePendingFlag, commitPromotedExecution p.delta.nonce p.state.commitment p.now]

theorem promotionWrites_eq (p : CandidatePromotion) (cleanUp : List (Files → Files)) :
    promotionWrites p cleanUp = promotionStart p ++ cleanUp ++ promotionEnd p := rfl

theorem match_promotionStart (p : CandidatePromotion) :
    Match g (promotionStart (p.mapPayload g)) (promotionStart p) := by
  refine List.rel_append (List.rel_append ?_ ?_) ?_
  · exact .cons (fun f => f.writeState_mapPayload g p.state) .nil
  · cases hauth : p.newAuth with
    | none =>
      rw [CandidatePromotion.mapPayload_newAuth, hauth]
      exact .nil
    | some auth =>
      rw [CandidatePromotion.mapPayload_newAuth, hauth]
      exact .cons (fun f => rfl) .nil
  · exact .cons (fun f => f.writeDelta_mapPayload g p.delta) .nil

theorem match_promotionEnd (p : CandidatePromotion) :
    Match g (promotionEnd (p.mapPayload g)) (promotionEnd p) :=
  .cons (fun f => f.releasePendingFlag_mapPayload g) (.cons (fun f =>
    f.commitPromotedExecution_mapPayload g p.delta.nonce p.state.commitment p.now) .nil)

theorem superseded_promotionStart (p : CandidatePromotion) :
    ((promotionStart p).foldl (fun f write => write f) files).superseded = files.superseded := by
  unfold promotionStart
  cases p.newAuth <;> rfl

/-- The row a restored one replaces is archived. -/
def archiveCurrent (now : Time) : Option DeltaObject → List (Files → Files)
  | some existing => [archiveDelta existing now]
  | none => []

/-- The archived copies of a row are removed. -/
def removeCopies (delta : DeltaObject) (archived : List SupersededDelta) : List (Files → Files) :=
  (archived.filter (isArchived delta)).map removeArchived

/-- The archived copies are removed, and what was archived after them stays. -/
theorem removeCopies_mapPayload (p : CandidatePromotion) {mid : Files}
    {rest : List SupersededDelta} (hsuperseded : mid.superseded = files.superseded ++ rest) :
    (removeCopies (p.mapPayload g).delta (files.mapPayload g).superseded).foldl
        (fun f write => write f) (mid.mapPayload g) =
      ((removeCopies p.delta files.superseded).foldl (fun f write => write f)
        mid).mapPayload g := by
  have hsuperseded' : (mid.mapPayload g).superseded =
      files.superseded.map (·.mapPayload g) ++ rest.map (·.mapPayload g) := by
    rw [superseded_mapPayload, hsuperseded, List.map_append]
  have hkept := Table.filter_mapped (f := SupersededDelta.mapPayload g)
    (p := fun a => !isArchived p.delta a) (fun _ => rfl) files.superseded
  have hall := removeArchived_all (isArchived p.delta) hsuperseded
  have hall' := removeArchived_all (isArchived (p.mapPayload g).delta) hsuperseded'
  refine hall'.trans (Eq.trans ?_ (congrArg (·.mapPayload g) hall.symm))
  have hsame : (fun a => !isArchived (p.mapPayload g).delta a) = fun a => !isArchived p.delta a :=
    rfl
  simp only [mapPayload, hsame, hkept, List.map_append]

/-- A promotion that removes the archived copies it restored from, after it archived
the row it replaces. -/
theorem restored_mapPayload (p : CandidatePromotion) (current : Option DeltaObject) :
    (archiveCurrent p.now (current.map (·.mapPayload g)) ++ promotionWrites (p.mapPayload g)
        (removeCopies (p.mapPayload g).delta (files.mapPayload g).superseded)).foldl
        (fun f write => write f) (files.mapPayload g) =
      ((archiveCurrent p.now current ++ promotionWrites p
        (removeCopies p.delta files.superseded)).foldl (fun f write => write f)
        files).mapPayload g := by
  have harchive : Match g (archiveCurrent p.now (current.map (·.mapPayload g)))
      (archiveCurrent p.now current) := by
    cases current with
    | none => exact .nil
    | some existing => exact .cons (fun f => f.archiveDelta_mapPayload g existing p.now) .nil
  have hkeeps : ∃ rest, ((archiveCurrent p.now current).foldl (fun f write => write f)
      files).superseded = files.superseded ++ rest := by
    cases current with
    | none => exact ⟨[], (List.append_nil _).symm⟩
    | some existing => exact ⟨_, rfl⟩
  -- the files just before the copies are removed
  generalize hmid : (promotionStart p).foldl (fun f write => write f)
    ((archiveCurrent p.now current).foldl (fun f write => write f) files) = mid
  have hmid' : (promotionStart (p.mapPayload g)).foldl (fun f write => write f)
      ((archiveCurrent p.now (current.map (·.mapPayload g))).foldl (fun f write => write f)
        (files.mapPayload g)) = mid.mapPayload g := by
    rw [harchive.foldl, (match_promotionStart g p).foldl, hmid]
  obtain ⟨rest, hrest⟩ := hkeeps
  have hsuperseded : mid.superseded = files.superseded ++ rest := by
    rw [← hmid, superseded_promotionStart, hrest]
  have hclean := removeCopies_mapPayload g files p hsuperseded
  rw [promotionWrites_eq, promotionWrites_eq]
  simp only [List.foldl_append, hmid, hmid', hclean]
  exact (match_promotionEnd g p).foldl _

theorem restoreSuperseded_mapPayload (p : CandidatePromotion) :
    ((files.mapPayload g).restoreSuperseded (p.mapPayload g)).map
        (·.complete (files.mapPayload g)) =
      ((files.restoreSuperseded p).map (·.complete files)).map (Prod.map id (·.mapPayload g)) := by
  have hrestored : ((files.superseded.map (·.mapPayload g)).filter
      (isArchived (p.delta.mapPayload g))).isEmpty =
      (files.superseded.filter (isArchived p.delta)).isEmpty := by
    have hfilter := Table.filter_mapped (f := SupersededDelta.mapPayload g)
      (p := isArchived p.delta) (fun _ => rfl) files.superseded
    have hsame : isArchived (p.delta.mapPayload g) = isArchived p.delta := rfl
    rw [hsame, hfilter, List.isEmpty_map]
  have hother : ((files.pullDelta p.delta.nonce).map (·.mapPayload g)).any
      (fun existing => !p.source.matches existing.status) =
      (files.pullDelta p.delta.nonce).any (fun existing => !p.source.matches existing.status) := by
    cases files.pullDelta p.delta.nonce <;> rfl
  have hwrites := restored_mapPayload g files p (files.pullDelta p.delta.nonce)
  unfold restoreSuperseded
  simp only [CandidatePromotion.mapPayload_delta, CandidatePromotion.mapPayload_source,
    CandidatePromotion.mapPayload_state, CandidatePromotion.mapPayload_now,
    DeltaObject.mapPayload_nonce, DeltaObject.mapPayload_prevCommitment, pullDelta_mapPayload,
    superseded_mapPayload, state_mapPayload, hrestored, hother]
  -- the checks in the order of the source: the row in place, the archived copies, the base
  by_cases hbusy : (files.pullDelta p.delta.nonce).any
      (fun existing => !p.source.matches existing.status) = true
  · simp only [hbusy, if_true]
    rfl
  by_cases hnone : (files.superseded.filter (isArchived p.delta)).isEmpty = true
  · simp only [hbusy, hnone, if_true, if_false, Bool.false_eq_true]
    rfl
  simp only [hbusy, hnone, if_false, Bool.false_eq_true]
  cases files.state with
  | none => rfl
  | some state =>
    simp only [Option.map_some, StateObject.mapPayload_commitment]
    by_cases hbase : state.commitment = p.delta.prevCommitment
    · simp only [hbase, ne_eq, not_true_eq_false, if_false]
      exact congrArg some (Prod.ext rfl hwrites)
    · simp only [hbase, ne_eq, not_false_eq_true, if_true]
      rfl

theorem promoteCandidate_mapPayload (p : CandidatePromotion) :
    ((files.mapPayload g).promoteCandidate (p.mapPayload g)).map
        (·.complete (files.mapPayload g)) =
      ((files.promoteCandidate p).map (·.complete files)).map (Prod.map id (·.mapPayload g)) := by
  have hwrites : Match g (promotionWrites (p.mapPayload g) []) (promotionWrites p []) := by
    rw [promotionWrites_eq, promotionWrites_eq]
    exact List.rel_append (List.rel_append (match_promotionStart g p) .nil) (match_promotionEnd g p)
  unfold promoteCandidate
  simp only [CandidatePromotion.mapPayload_source]
  by_cases hsource : p.source = .superseded
  · simp only [hsource, if_true]
    exact restoreSuperseded_mapPayload g files p
  simp only [hsource, if_false, CandidatePromotion.mapPayload_delta,
    CandidatePromotion.mapPayload_state, DeltaObject.mapPayload_nonce,
    DeltaObject.mapPayload_prevCommitment, StateObject.mapPayload_commitment,
    pullDelta_mapPayload, state_mapPayload]
  cases files.pullDelta p.delta.nonce with
  | none => rfl
  | some existing =>
    simp only [Option.map_some, DeltaObject.mapPayload_status]
    by_cases hmatches : p.source.matches existing.status = true
    · simp only [hmatches, if_true]
      cases files.state with
      | none => rfl
      | some state =>
        simp only [Option.map_some, StateObject.mapPayload_commitment]
        by_cases hdone : state.commitment = p.state.commitment
        · -- the state is written already: the rest of the promotion is made up for
          simp only [hdone, ne_eq, not_true_eq_false, false_and, if_false]
          exact congrArg some (hwrites.complete _ files)
        by_cases hbase : state.commitment = p.delta.prevCommitment
        · simp only [hbase, ne_eq, not_true_eq_false, and_false, if_false]
          exact congrArg some (hwrites.complete _ files)
        · simp only [hdone, hbase, ne_eq, not_false_eq_true, and_self, if_true]
          rfl
    · simp only [hmatches, if_false, Bool.false_eq_true]
      rfl

end Promotions

/-! ## Executions -/

section Executions
variable (g : PayloadMap) (files : Files)

theorem createExecutionReservation_mapPayload (leaseFits : Bool) (proposalId : String)
    (fence : LeaseFence) (leaseExpiresAt now : Time) :
    ((files.mapPayload g).createExecutionReservation leaseFits proposalId fence leaseExpiresAt
        now).map (·.complete (files.mapPayload g)) =
      ((files.createExecutionReservation leaseFits proposalId fence leaseExpiresAt now).map
        (·.complete files)).map (Prod.map id (·.mapPayload g)) := by
  unfold createExecutionReservation
  rw [activeExecution_mapPayload, candidates_isEmpty_mapPayload, proposals_mapPayload,
    executions_mapPayload]
  cases leaseFits with
  | false => rfl
  | true =>
    by_cases hexpired : leaseExpiresAt ≤ now
    · simp only [hexpired, if_true]
      rfl
    simp only [hexpired, if_false]
    cases files.activeExecution with
    | some active => rfl
    | none =>
      cases files.candidates.isEmpty with
      | false => rfl
      | true =>
        by_cases hstored : proposalId ∈ files.proposals
        · simp only [hstored, if_true]
          rfl
        · simp only [hstored, if_false]
          rfl

theorem renewExecutionReservation_mapPayload (fence : LeaseFence) (leaseExpiresAt : Time)
    (phase : ExecutionPhase) (now : Time) :
    ((files.mapPayload g).renewExecutionReservation fence leaseExpiresAt phase now).complete
        (files.mapPayload g) =
      Prod.map id (·.mapPayload g)
        ((files.renewExecutionReservation fence leaseExpiresAt phase now).complete files) := by
  unfold renewExecutionReservation
  rw [activeExecution_mapPayload]
  cases files.activeExecution with
  | none => rfl
  | some active =>
    cases howns : active.reservation.ownsLive fence now with
    | true =>
      simp only [howns, if_true]
      rfl
    | false =>
      simp only [howns, Bool.false_eq_true, if_false]
      rfl

theorem claimExecutionReservation_mapPayload (leaseFits : Bool) (expected claimant : LeaseFence)
    (leaseExpiresAt now : Time) :
    ((files.mapPayload g).claimExecutionReservation leaseFits expected claimant leaseExpiresAt
        now).map (·.complete (files.mapPayload g)) =
      ((files.claimExecutionReservation leaseFits expected claimant leaseExpiresAt now).map
        (·.complete files)).map (Prod.map id (·.mapPayload g)) := by
  unfold claimExecutionReservation
  rw [activeExecution_mapPayload]
  cases leaseFits with
  | false => rfl
  | true =>
    cases files.activeExecution with
    | none => rfl
    | some active =>
      by_cases hfence : active.reservation.fence = expected
      · simp only [hfence, ne_eq, not_true_eq_false, if_false]
        by_cases hstale : claimant.fenceToken ≤ expected.fenceToken ∨ leaseExpiresAt ≤ now
        · simp only [hstale, if_true]
          rfl
        · simp only [hstale, if_false]
          rfl
      · simp only [hfence, ne_eq, not_false_eq_true, if_true]
        rfl

theorem match_admissionWrites (active : ExecutionRecord) (a : CandidateAdmission) :
    Match g (admissionWrites active (a.mapPayload g)) (admissionWrites active a) :=
  .cons (fun _ => rfl) (.cons (fun f => f.writeDelta_mapPayload g a.delta)
    (.cons (fun _ => rfl) (.cons (fun _ => rfl) .nil)))

theorem admitExecutionCandidate_mapPayload (a : CandidateAdmission) :
    ((files.mapPayload g).admitExecutionCandidate (a.mapPayload g)).map
        (·.complete (files.mapPayload g)) =
      ((files.admitExecutionCandidate a).map (·.complete files)).map
        (Prod.map id (·.mapPayload g)) := by
  have hdescribes : (a.mapPayload g).evidenceDescribesCandidate = a.evidenceDescribesCandidate := rfl
  have hfence : (a.mapPayload g).fence = a.fence := rfl
  have hproposal : (a.mapPayload g).proposalId = a.proposalId := rfl
  have hattempt : (a.mapPayload g).attempt = a.attempt := rfl
  have hnow : (a.mapPayload g).now = a.now := rfl
  have harchive : (a.mapPayload g).archiveParked = a.archiveParked := rfl
  unfold admitExecutionCandidate
  simp only [hdescribes, hfence, hproposal, hattempt, hnow, harchive, metadata_mapPayload,
    activeExecution_mapPayload, state_mapPayload, candidates_isEmpty_mapPayload,
    CandidateAdmission.mapPayload_delta, DeltaObject.mapPayload_nonce,
    DeltaObject.mapPayload_prevCommitment, pullDelta_mapPayload]
  cases a.evidenceDescribesCandidate with
  | false => rfl
  | true =>
    cases files.activeExecution with
    | none => rfl
    | some active =>
      by_cases hauth : active.reservation.authorizes a.fence a.proposalId a.attempt = false ∨
          active.evidence.isSome = true
      · simp only [hauth, if_true]
        rfl
      simp only [hauth, if_false]
      cases active.reservation.ownsLive a.fence a.now with
      | false => rfl
      | true =>
        simp only [Bool.true_eq_false, if_false]
        cases files.state with
        | none => rfl
        | some state =>
          simp only [Option.map_some, StateObject.mapPayload_commitment]
          by_cases hbase : state.commitment = a.delta.prevCommitment
          · simp only [hbase, ne_eq, not_true_eq_false, if_false]
            cases files.metadata with
            | none => rfl
            | some metadata =>
              by_cases hinactive : metadata.pausedAt.isSome = true ∨
                  metadata.releasedAt.isSome = true
              · simp only [hinactive, if_true]
                rfl
              simp only [hinactive, if_false]
              cases files.candidates.isEmpty with
              | false => rfl
              | true =>
                cases files.pullDelta a.delta.nonce with
                | none =>
                  exact congrArg some ((match_admissionWrites g active a).complete _ files)
                | some existing =>
                  simp only [Option.map_some, DeltaObject.mapPayload_status]
                  by_cases hparked : existing.status.isParked = true
                  · -- a parked row under the nonce makes way for the candidate
                    simp only [hparked, if_true]
                    refine congrArg some (Match.complete (List.rel_append (List.rel_append ?_ ?_)
                      (match_admissionWrites g active a)) _ files)
                    · cases a.archiveParked with
                      | true =>
                        exact .cons (fun f => f.archiveDelta_mapPayload g existing a.now) .nil
                      | false => exact .nil
                    · exact .cons (fun f => f.deleteDelta_mapPayload g a.delta.nonce) .nil
                  · simp only [hparked]
                    rfl
          · simp only [hbase, ne_eq, not_false_eq_true, if_true]
            rfl

theorem match_removeCandidate (nonce : Nonce) :
    Match g ((files.mapPayload g).removeCandidate nonce) (files.removeCandidate nonce) := by
  have hcandidate : ((files.pullDelta nonce).map (·.mapPayload g)).any (·.status.isCandidate) =
      (files.pullDelta nonce).any (·.status.isCandidate) := by
    cases files.pullDelta nonce <;> rfl
  unfold removeCandidate
  rw [pullDelta_mapPayload, hcandidate]
  split
  · exact .cons (fun f => f.deleteDelta_mapPayload g nonce) .nil
  · exact .nil

theorem resolveExecution_mapPayload (r : ExecutionResolution) :
    ((files.mapPayload g).resolveExecution r).complete (files.mapPayload g) =
      Prod.map id (·.mapPayload g) ((files.resolveExecution r).complete files) := by
  unfold resolveExecution
  rw [resolvable_mapPayload]
  cases files.resolvable r with
  | error refused => rfl
  | ok record =>
    cases hevidence : record.evidence with
    | none =>
      simp only [hevidence]
      rfl
    | some evidence =>
      simp only [hevidence]
      refine Match.complete (List.rel_append (List.rel_append
        (match_removeCandidate g files evidence.candidateNonce) ?_) ?_) _ files
      · split
        · exact .cons (fun _ => rfl) .nil
        · exact .nil
      · exact .cons (fun f => f.releasePendingFlag_mapPayload g) (.cons (fun _ => rfl) .nil)

theorem failExecution_mapPayload (r : ExecutionResolution) :
    ((files.mapPayload g).failExecution r).complete (files.mapPayload g) =
      Prod.map id (·.mapPayload g) ((files.failExecution r).complete files) := by
  unfold failExecution
  rw [resolvable_mapPayload, admission_mapPayload]
  cases files.resolvable r with
  | error refused => rfl
  | ok record =>
    cases hevidence : record.evidence.isSome with
    | true =>
      simp only [hevidence, if_true]
      rfl
    | false =>
      simp only [hevidence, Bool.false_eq_true, if_false]
      refine Match.complete (List.rel_append ?_ ?_) _ files
      rotate_left
      · exact .cons (fun _ => rfl) .nil
      cases files.admission.filter (·.belongsTo record.reservation) with
      | none => exact .nil
      | some interrupted => exact match_removeCandidate g files interrupted.nonce

theorem settlePromotedExecution_mapPayload (fence : LeaseFence) (now : Time) :
    ((files.mapPayload g).settlePromotedExecution fence now).map
        (·.complete (files.mapPayload g)) =
      ((files.settlePromotedExecution fence now).map (·.complete files)).map
        (Prod.map id (·.mapPayload g)) := by
  unfold settlePromotedExecution
  rw [activeExecution_mapPayload, state_mapPayload]
  cases files.activeExecution with
  | none => rfl
  | some active =>
    dsimp only
    cases active.reservation.ownsLive fence now with
    | false => rfl
    | true =>
      cases active.evidence with
      | none => rfl
      | some evidence =>
        have hcanonical : ((files.mapPayload g).pullDelta evidence.candidateNonce).any
            (·.status.isCanonical) =
            (files.pullDelta evidence.candidateNonce).any (·.status.isCanonical) := by
          rw [pullDelta_mapPayload]
          cases files.pullDelta evidence.candidateNonce <;> rfl
        cases files.state with
        | none => rfl
        | some state =>
          simp only [Bool.true_eq_false, if_false, Option.map_some, StateObject.mapPayload_commitment, hcanonical]
          by_cases hpromoted : (files.pullDelta evidence.candidateNonce).any
              (·.status.isCanonical) = true ∧
              eqIgnoreAsciiCase state.commitment evidence.expectedCommitment = true
          · simp only [hpromoted, and_self, if_true]
            rfl
          · simp only [hpromoted, if_false]
            rfl

end Executions
end Files
end Guardian
