import Guardian.Storage.PostgresExecution
import Guardian.Machine

/- The Postgres backend never looks into a payload. A `PayloadMap` rewrites the
   payload of every stored record, each by a function of the record's identity;
   every statement commutes with it. Rewriting the rows and the arguments first
   and running the statement afterwards is the same as running the statement
   and rewriting what it left and answered.

   The lemmas follow the order of the statements in `Storage.Postgres` and
   `Storage.PostgresExecution`. A transaction's lemma is stated with `Option.map`
   over its answer and its rows: the answer of a write holds no payload. -/
namespace Guardian

/-- A rewriting of the payloads of one account: of the state document, of the
delta at a nonce, of the proposal under a commitment. -/
structure PayloadMap where
  state : StateJson → StateJson
  delta : Nonce → Payload → Payload
  proposal : Commitment → Payload → Payload

namespace PayloadMap

def id : PayloadMap := ⟨fun x => x, fun _ x => x, fun _ x => x⟩

/-- Rewrite by `h`, then by `g`. -/
def comp (g h : PayloadMap) : PayloadMap where
  state x := g.state (h.state x)
  delta nonce x := g.delta nonce (h.delta nonce x)
  proposal commitment x := g.proposal commitment (h.proposal commitment x)

end PayloadMap

def StateObject.mapPayload (g : PayloadMap) (s : StateObject) : StateObject :=
  { s with stateJson := g.state s.stateJson }

def DeltaObject.mapPayload (g : PayloadMap) (d : DeltaObject) : DeltaObject :=
  { d with deltaPayload := g.delta d.nonce d.deltaPayload }

def DeltaRow.mapPayload (g : PayloadMap) (r : DeltaRow) : DeltaRow :=
  { r with delta := r.delta.mapPayload g }

def SupersededDelta.mapPayload (g : PayloadMap) (s : SupersededDelta) : SupersededDelta :=
  { s with delta := s.delta.mapPayload g }

/-- A proposal's payload is rewritten under the commitment it is stored at. -/
def DeltaObject.mapProposal (g : PayloadMap) (commitment : Commitment) (d : DeltaObject) :
    DeltaObject :=
  { d with deltaPayload := g.proposal commitment d.deltaPayload }

def ProposalRecord.mapPayload (g : PayloadMap) (r : ProposalRecord) : ProposalRecord :=
  { r with proposal := r.proposal.mapProposal g r.commitment }

def CandidatePromotion.mapPayload (g : PayloadMap) (p : CandidatePromotion) : CandidatePromotion :=
  { p with state := p.state.mapPayload g, delta := p.delta.mapPayload g }

def CandidateAdmission.mapPayload (g : PayloadMap) (a : CandidateAdmission) : CandidateAdmission :=
  { a with delta := a.delta.mapPayload g }

section Fields
variable (g : PayloadMap)

@[simp] theorem StateObject.mapPayload_commitment (s : StateObject) :
    (s.mapPayload g).commitment = s.commitment := rfl

@[simp] theorem DeltaObject.mapPayload_nonce (d : DeltaObject) :
    (d.mapPayload g).nonce = d.nonce := rfl

@[simp] theorem DeltaObject.mapPayload_prevCommitment (d : DeltaObject) :
    (d.mapPayload g).prevCommitment = d.prevCommitment := rfl

@[simp] theorem DeltaObject.mapPayload_newCommitment (d : DeltaObject) :
    (d.mapPayload g).newCommitment = d.newCommitment := rfl

@[simp] theorem DeltaObject.mapPayload_status (d : DeltaObject) :
    (d.mapPayload g).status = d.status := rfl

@[simp] theorem DeltaRow.mapPayload_delta (r : DeltaRow) :
    (r.mapPayload g).delta = r.delta.mapPayload g := rfl

@[simp] theorem SupersededDelta.mapPayload_delta (s : SupersededDelta) :
    (s.mapPayload g).delta = s.delta.mapPayload g := rfl

@[simp] theorem SupersededDelta.mapPayload_supersededAt (s : SupersededDelta) :
    (s.mapPayload g).supersededAt = s.supersededAt := rfl

@[simp] theorem ProposalRecord.mapPayload_commitment (r : ProposalRecord) :
    (r.mapPayload g).commitment = r.commitment := rfl

@[simp] theorem ProposalRecord.mapPayload_proposal (r : ProposalRecord) :
    (r.mapPayload g).proposal = r.proposal.mapProposal g r.commitment := rfl

@[simp] theorem DeltaObject.mapProposal_nonce (c : Commitment) (d : DeltaObject) :
    (d.mapProposal g c).nonce = d.nonce := rfl

@[simp] theorem DeltaObject.mapProposal_prevCommitment (c : Commitment) (d : DeltaObject) :
    (d.mapProposal g c).prevCommitment = d.prevCommitment := rfl

@[simp] theorem DeltaObject.mapProposal_status (c : Commitment) (d : DeltaObject) :
    (d.mapProposal g c).status = d.status := rfl

@[simp] theorem CandidatePromotion.mapPayload_state (p : CandidatePromotion) :
    (p.mapPayload g).state = p.state.mapPayload g := rfl

@[simp] theorem CandidatePromotion.mapPayload_delta (p : CandidatePromotion) :
    (p.mapPayload g).delta = p.delta.mapPayload g := rfl

@[simp] theorem CandidatePromotion.mapPayload_source (p : CandidatePromotion) :
    (p.mapPayload g).source = p.source := rfl

@[simp] theorem CandidatePromotion.mapPayload_newAuth (p : CandidatePromotion) :
    (p.mapPayload g).newAuth = p.newAuth := rfl

@[simp] theorem CandidatePromotion.mapPayload_now (p : CandidatePromotion) :
    (p.mapPayload g).now = p.now := rfl

@[simp] theorem CandidateAdmission.mapPayload_delta (a : CandidateAdmission) :
    (a.mapPayload g).delta = a.delta.mapPayload g := rfl

end Fields

theorem DeltaRow.column_mapPayload (g : PayloadMap) (r : DeltaRow) :
    (r.mapPayload g).column = r.column := rfl

theorem gate_mapPayload (g : PayloadMap) (stored : Commitment) (queue : List QueuedCandidate)
    (delta : DeltaObject) (maxPending : Nat) :
    gateCandidateSubmission stored queue (delta.mapPayload g) maxPending =
      gateCandidateSubmission stored queue delta maxPending := rfl

namespace Db

/-- Every payload rewritten. -/
def mapPayload (g : PayloadMap) (db : Db) : Db :=
  { db with
    state := db.state.map (·.mapPayload g)
    deltas := db.deltas.map (·.mapPayload g) (DeltaRow.column_mapPayload g)
    superseded := db.superseded.map (·.mapPayload g)
    proposals := db.proposals.map (·.mapPayload g) }

section Statements
variable (g : PayloadMap) (db : Db)

@[simp] theorem metadata_mapPayload : (db.mapPayload g).metadata = db.metadata := rfl

@[simp] theorem executions_mapPayload : (db.mapPayload g).executions = db.executions := rfl

@[simp] theorem leases_mapPayload : (db.mapPayload g).leases = db.leases := rfl

@[simp] theorem state_mapPayload : (db.mapPayload g).state = db.state.map (·.mapPayload g) := rfl

@[simp] theorem superseded_mapPayload :
    (db.mapPayload g).superseded = db.superseded.map (·.mapPayload g) := rfl

@[simp] theorem proposals_mapPayload :
    (db.mapPayload g).proposals = db.proposals.map (·.mapPayload g) := rfl

@[simp] theorem activeExecution_mapPayload :
    (db.mapPayload g).activeExecution = db.activeExecution := rfl

@[simp] theorem owningExecution_mapPayload (nonce : Nonce) :
    (db.mapPayload g).owningExecution nonce = db.owningExecution nonce := rfl

@[simp] theorem attemptRecord_mapPayload (proposalId : String) (attempt : Nat) :
    (db.mapPayload g).attemptRecord proposalId attempt = db.attemptRecord proposalId attempt := rfl

@[simp] theorem rowAt_mapPayload (nonce : Nonce) :
    (db.mapPayload g).rowAt nonce = (db.rowAt nonce).map (·.mapPayload g) :=
  Table.find?_map (DeltaRow.column_mapPayload g) db.deltas (nonceColumn nonce)

@[simp] theorem candidates_mapPayload :
    (db.mapPayload g).candidates = db.candidates.map (·.mapPayload g) :=
  Table.select_map (DeltaRow.column_mapPayload g) db.deltas fun _ => rfl

@[simp] theorem hasCandidate_mapPayload : (db.mapPayload g).hasCandidate = db.hasCandidate := by
  simp only [hasCandidate, mapPayload, Table.map, List.any_map]
  rfl

@[simp] theorem queue_mapPayload : (db.mapPayload g).queue = db.queue := by
  simp only [queue, candidates_mapPayload, List.map_map]
  rfl

@[simp] theorem setMetadata_mapPayload (f : AccountMetadata → AccountMetadata) :
    (db.mapPayload g).setMetadata f = (db.setMetadata f).mapPayload g := rfl

@[simp] theorem setPendingFlag_mapPayload (flag : Bool) :
    (db.mapPayload g).setPendingFlag flag = (db.setPendingFlag flag).mapPayload g := rfl

@[simp] theorem clearPendingFlagIfNone_mapPayload :
    (db.mapPayload g).clearPendingFlagIfNone = db.clearPendingFlagIfNone.mapPayload g := by
  unfold clearPendingFlagIfNone
  rw [hasCandidate_mapPayload]
  split <;> rfl

@[simp] theorem updateExecution_mapPayload (proposalId : String) (attempt : Nat)
    (f : ExecutionRecord → ExecutionRecord) :
    (db.mapPayload g).updateExecution proposalId attempt f =
      (db.updateExecution proposalId attempt f).mapPayload g := rfl

@[simp] theorem deleteRow_mapPayload (nonce : Nonce) (p : DeltaStatus → Bool) :
    (db.mapPayload g).deleteRow nonce p = (db.deleteRow nonce p).mapPayload g := by
  have hrows := Table.delete_map (DeltaRow.column_mapPayload g) db.deltas
    (p := Db.isAt nonce p) fun _ => rfl
  simp only [deleteRow, mapPayload, hrows]

@[simp] theorem updateRow_mapPayload (nonce : Nonce) (p : DeltaStatus → Bool)
    (status : DeltaStatus → DeltaStatus) (new : Option Commitment → Option Commitment) :
    (db.mapPayload g).updateRow nonce p status new =
      (db.updateRow nonce p status new).mapPayload g := by
  have hrows := Table.update_map (DeltaRow.column_mapPayload g) db.deltas
    (p := Db.isAt nonce p) (DeltaRow.column_rewrite status new)
    (DeltaRow.column_rewrite status new) (fun _ => rfl) fun _ _ => rfl
  simp only [updateRow, mapPayload, hrows]

@[simp] theorem archiveParkedDelta_mapPayload (nonce : Nonce) (now : Time) :
    (db.mapPayload g).archiveParkedDelta nonce now =
      (db.archiveParkedDelta nonce now).mapPayload g := by
  unfold archiveParkedDelta
  rw [rowAt_mapPayload]
  cases db.rowAt nonce with
  | none => rfl
  | some r =>
    simp only [Option.map_some]
    show (if r.delta.status.isParked then _ else _) = _
    split
    · simp only [mapPayload, List.map_append, List.map_cons, List.map_nil]
      rfl
    · rfl

@[simp] theorem insertDelta_mapPayload (delta : DeltaObject) :
    (db.mapPayload g).insertDelta (delta.mapPayload g) =
      (db.insertDelta delta).map (·.mapPayload g) := by
  unfold insertDelta
  simp only [DeltaObject.mapPayload_nonce, rowAt_mapPayload]
  cases db.rowAt delta.nonce with
  | some r => rfl
  | none =>
    have hrows := Table.insert_map (DeltaRow.column_mapPayload g) db.deltas
      ⟨db.nextId, delta⟩
    simp only [Option.map_none, Option.map_some, Option.some.injEq]
    exact congrArg (fun rows => ({ db.mapPayload g with deltas := rows, nextId := db.nextId + 1 } : Db))
      hrows

@[simp] theorem supersedeParked_mapPayload (nonce : Nonce) (now : Time) (archive : Bool) :
    (db.mapPayload g).supersedeParked nonce now archive =
      (db.supersedeParked nonce now archive).mapPayload g := by
  cases archive <;> simp [supersedeParked]

@[simp] theorem settle_mapPayload (r : ExecutionRecord) (terminal : ExecutionTerminal)
    (now : Time) : (db.mapPayload g).settle r terminal now =
      (db.settle r terminal now).map (·.mapPayload g) := by
  unfold settle
  cases r.outcome <;> rfl

@[simp] theorem commitPromotedExecution_mapPayload (nonce : Nonce) (promoted : Commitment)
    (now : Time) : (db.mapPayload g).commitPromotedExecution nonce promoted now =
      (db.commitPromotedExecution nonce promoted now).map (Prod.map id (·.mapPayload g)) := by
  unfold commitPromotedExecution
  rw [owningExecution_mapPayload]
  cases db.owningExecution nonce with
  | none => rfl
  | some r =>
    cases hev : r.evidence with
    | none => simp [hev]
    | some evidence =>
      simp only [hev, settle_mapPayload, Option.map_map]
      split
      · simp only [Option.map_map]
        rfl
      · rfl

end Statements

/-! ## Candidate transactions -/

section Transactions
variable (g : PayloadMap) (db : Db)

theorem submitCandidate_mapPayload (delta : DeltaObject) (now : Time) (policy : CandidatePolicy) :
    (db.mapPayload g).submitCandidate (delta.mapPayload g) now policy =
      (db.submitCandidate delta now policy).map (Prod.map id (·.mapPayload g)) := by
  unfold submitCandidate
  cases hmeta : db.metadata with
  | none => simp [hmeta]
  | some metadata =>
    cases hrefused : CandidateSubmission.refusedWhileInactive metadata.releasedAt
        metadata.pausedAt with
    | some refused => simp [hmeta, hrefused]
    | none =>
      cases hstate : db.state with
      | none => simp [hmeta, hrefused, hstate]
      | some state =>
        cases hactive : db.activeExecution with
        | some active => simp [hmeta, hrefused, hstate, hactive]
        | none =>
          cases hgate : gateCandidateSubmission state.commitment db.queue delta
              policy.maxPendingCandidates with
          | some refused => simp [hmeta, hrefused, hstate, hactive, gate_mapPayload, hgate]
          | none =>
            cases hinsert : (db.supersedeParked delta.nonce now
              policy.archiveSuperseded).insertDelta delta with
            | none => simp [hmeta, hrefused, hstate, hactive, gate_mapPayload, hgate, hinsert]
            | some db₂ => simp [hmeta, hrefused, hstate, hactive, gate_mapPayload, hgate, hinsert]

theorem requestCandidateAbandon_mapPayload (nonce : Nonce) (new : Commitment) (now : Time) :
    (db.mapPayload g).requestCandidateAbandon nonce new now =
      (db.requestCandidateAbandon nonce new now).map (Prod.map id (·.mapPayload g)) := by
  unfold requestCandidateAbandon
  cases hmeta : db.metadata with
  | none => simp [hmeta]
  | some metadata =>
    cases howner : db.owningExecution nonce with
    | some r => simp [hmeta, howner]
    | none =>
      cases hrow : db.rowAt nonce with
      | none => simp [hmeta, howner, hrow]
      | some r =>
        simp only [metadata_mapPayload, hmeta, owningExecution_mapPayload, howner,
          rowAt_mapPayload, hrow, Option.map_some, DeltaRow.mapPayload_delta,
          DeltaObject.mapPayload_status, DeltaObject.mapPayload_newCommitment]
        by_cases hc : r.delta.status.isCandidate ∧ r.delta.newCommitment = some new
        · simp only [hc, and_self, if_true]
          cases r.delta.status.abandonRequestedAt <;> simp
        · simp only [hc, if_false]
          rfl

theorem restoreSuperseded_mapPayload (delta : DeltaObject) (now : Time) :
    (db.mapPayload g).restoreSuperseded (delta.mapPayload g) now =
      (db.restoreSuperseded delta now).map (·.mapPayload g) := by
  have harchived : ∀ s : SupersededDelta,
      restoreSuperseded.isArchived (delta.mapPayload g) (s.mapPayload g) =
        restoreSuperseded.isArchived delta s := fun _ => rfl
  have hkept : ({ db.mapPayload g with
      superseded := (db.superseded.map (·.mapPayload g)).filter
        (fun s => !restoreSuperseded.isArchived (delta.mapPayload g) s) } : Db) =
      ({ db with
        superseded := db.superseded.filter (fun s => !restoreSuperseded.isArchived delta s) } :
          Db).mapPayload g := by
    simp only [mapPayload, List.filter_map, Function.comp_def, harchived]
  unfold restoreSuperseded
  simp only [superseded_mapPayload, hkept]
  simp only [DeltaObject.mapPayload_nonce, rowAt_mapPayload, List.any_map,
    Function.comp_def, harchived, archiveParkedDelta_mapPayload, deleteRow_mapPayload,
    insertDelta_mapPayload]
  have hall : ((db.rowAt delta.nonce).map (·.mapPayload g)).all (·.delta.status.isParked) =
      (db.rowAt delta.nonce).all (·.delta.status.isParked) := by
    cases db.rowAt delta.nonce <;> rfl
  rw [hall]
  split
  · split <;> rfl
  · rfl

theorem writeCanonical_mapPayload (p : CandidatePromotion) :
    (db.mapPayload g).writeCanonical (p.mapPayload g) =
      (db.writeCanonical p).map (·.mapPayload g) := by
  unfold writeCanonical
  simp only [CandidatePromotion.mapPayload_source, CandidatePromotion.mapPayload_delta,
    CandidatePromotion.mapPayload_now, DeltaObject.mapPayload_nonce, DeltaObject.mapPayload_status,
    DeltaObject.mapPayload_newCommitment, rowAt_mapPayload, restoreSuperseded_mapPayload]
  cases p.source with
  | superseded => rfl
  | _ =>
    cases db.rowAt p.delta.nonce with
    | none => rfl
    | some r =>
      simp only [Option.map_some, DeltaRow.mapPayload_delta, DeltaObject.mapPayload_status,
        updateRow_mapPayload]
      split <;> rfl

/-- The end of a promotion, once the state and the signers are written. -/
def finishPromotion (p : CandidatePromotion) (db : Db) : Option (PromoteWrite × Db) :=
  match db.commitPromotedExecution p.delta.nonce p.state.commitment p.now with
  | none => none
  | some (settled, db') => some (.applied settled, db'.clearPendingFlagIfNone)

theorem finishPromotion_mapPayload (p : CandidatePromotion) :
    (db.mapPayload g).finishPromotion p =
      (db.finishPromotion p).map (Prod.map id (·.mapPayload g)) := by
  unfold finishPromotion
  rw [commitPromotedExecution_mapPayload]
  cases db.commitPromotedExecution p.delta.nonce p.state.commitment p.now with
  | none => rfl
  | some answer => simp

theorem promoteCandidate_mapPayload (leaseCurrent : Bool) (p : CandidatePromotion) :
    (db.mapPayload g).promoteCandidate leaseCurrent (p.mapPayload g) =
      (db.promoteCandidate leaseCurrent p).map (Prod.map id (·.mapPayload g)) := by
  have hfinish : ∀ db₃ : Db, (db₃.mapPayload g).finishPromotion p =
      (db₃.finishPromotion p).map (Prod.map id (·.mapPayload g)) :=
    fun _ => finishPromotion_mapPayload _ _ p
  unfold promoteCandidate
  simp only [metadata_mapPayload, writeCanonical_mapPayload]
  cases db.metadata with
  | none => rfl
  | some metadata =>
    cases leaseCurrent with
    | false => rfl
    | true =>
      cases db.writeCanonical p with
      | none => rfl
      | some db₁ =>
        cases hstate : db₁.state with
        | none => simp [hstate]
        | some state =>
          simp only [Option.map_some, state_mapPayload, hstate, StateObject.mapPayload_commitment,
            CandidatePromotion.mapPayload_state, CandidatePromotion.mapPayload_delta,
            CandidatePromotion.mapPayload_newAuth, CandidatePromotion.mapPayload_now,
            DeltaObject.mapPayload_nonce, DeltaObject.mapPayload_prevCommitment]
          by_cases hbase : state.commitment = p.delta.prevCommitment ∨
              state.commitment = p.state.commitment
          · simp only [hbase, if_true]
            cases p.newAuth with
            | none => exact hfinish { db₁ with state := some p.state.asStored }
            | some auth =>
              exact hfinish (({ db₁ with state := some p.state.asStored } : Db).setMetadata
                (fun m => { m with auth := auth }))
          · simp only [hbase, if_false]
            rfl

theorem discardCandidate_mapPayload (leaseCurrent : Bool) (nonce : Nonce)
    (kind : DeltaStatusKind) : (db.mapPayload g).discardCandidate leaseCurrent nonce kind =
      (db.discardCandidate leaseCurrent nonce kind).map (Prod.map id (·.mapPayload g)) := by
  unfold discardCandidate
  simp only [metadata_mapPayload, owningExecution_mapPayload, rowAt_mapPayload]
  cases db.metadata with
  | none => rfl
  | some metadata =>
    cases leaseCurrent with
    | false => rfl
    | true =>
      by_cases howned : kind = .candidate ∧ (db.owningExecution nonce).isSome
      · simp only [howned, and_self, if_true]
        rfl
      · simp only [howned, if_false, if_true]
        cases db.rowAt nonce with
        | none => rfl
        | some r =>
          by_cases hkind : r.delta.status.kind = kind
          · simp [hkind]
          · simp [hkind]

theorem updateCandidateStatus_mapPayload (leaseCurrent : Bool) (nonce : Nonce)
    (status : DeltaStatus) : (db.mapPayload g).updateCandidateStatus leaseCurrent nonce status =
      (db.updateCandidateStatus leaseCurrent nonce status).map
        (Prod.map id (·.mapPayload g)) := by
  unfold updateCandidateStatus
  simp only [metadata_mapPayload, owningExecution_mapPayload, rowAt_mapPayload]
  cases db.metadata with
  | none => rfl
  | some metadata =>
    cases leaseCurrent with
    | false => rfl
    | true =>
      by_cases howned : status.kind ≠ .candidate ∧ (db.owningExecution nonce).isSome
      · simp [howned]
      · simp only [howned, if_false, if_true]
        cases db.rowAt nonce with
        | none => rfl
        | some r =>
          by_cases hcand : r.delta.status.isCandidate
          · by_cases hkept : status.kind = .retained ∧ r.delta.status.abandonRequestedAt.isSome
            · simp [hcand, hkept]
            · simp [hcand, hkept]
          · simp [hcand]

/-! ## Executions -/

theorem createExecutionReservation_mapPayload (leaseCurrent : Bool) (proposalId : String)
    (fence : LeaseFence) (leaseExpiresAt : Time) :
    (db.mapPayload g).createExecutionReservation leaseCurrent proposalId fence leaseExpiresAt =
      (db.createExecutionReservation leaseCurrent proposalId fence leaseExpiresAt).map
        (Prod.map id (·.mapPayload g)) := by
  unfold createExecutionReservation
  have hany : (db.mapPayload g).proposals.any (·.commitment == proposalId) =
      db.proposals.any (·.commitment == proposalId) := by
    simp only [proposals_mapPayload, List.any_map]
    rfl
  simp only [metadata_mapPayload, activeExecution_mapPayload, hasCandidate_mapPayload, hany,
    executions_mapPayload]
  cases db.metadata with
  | none => rfl
  | some metadata =>
    cases leaseCurrent with
    | false => rfl
    | true =>
      cases db.activeExecution with
      | some active => rfl
      | none =>
        by_cases hcand : db.hasCandidate
        · simp [hcand]
        · by_cases hprop : db.proposals.any (·.commitment == proposalId)
          · simp only [hcand, hprop, if_true, Bool.false_eq_true, if_false]
            rfl
          · simp only [hcand, hprop, if_true, Bool.false_eq_true, if_false]
            rfl

theorem renewExecutionReservation_mapPayload (leaseCurrent : Bool) (fence : LeaseFence)
    (leaseExpiresAt : Time) (phase : ExecutionPhase) :
    (db.mapPayload g).renewExecutionReservation leaseCurrent fence leaseExpiresAt phase =
      (db.renewExecutionReservation leaseCurrent fence leaseExpiresAt phase).map
        (Prod.map id (·.mapPayload g)) := by
  unfold renewExecutionReservation
  simp only [metadata_mapPayload, activeExecution_mapPayload, updateExecution_mapPayload]
  cases db.metadata with
  | none => rfl
  | some metadata =>
    cases db.activeExecution with
    | none => rfl
    | some r =>
      by_cases howns : ownsLive leaseCurrent r fence <;> simp [howns]

theorem claimExecutionReservation_mapPayload (leaseCurrent : Bool) (expected claimant : LeaseFence)
    (leaseExpiresAt : Time) :
    (db.mapPayload g).claimExecutionReservation leaseCurrent expected claimant leaseExpiresAt =
      (db.claimExecutionReservation leaseCurrent expected claimant leaseExpiresAt).map
        (Prod.map id (·.mapPayload g)) := by
  unfold claimExecutionReservation
  simp only [metadata_mapPayload, activeExecution_mapPayload, updateExecution_mapPayload]
  cases db.metadata with
  | none => rfl
  | some metadata =>
    cases db.activeExecution with
    | none => rfl
    | some r =>
      simp only [apply_ite (Option.map _)]
      rfl

theorem admitExecutionCandidate_mapPayload (leaseCurrent : Bool) (a : CandidateAdmission) :
    (db.mapPayload g).admitExecutionCandidate leaseCurrent (a.mapPayload g) =
      (db.admitExecutionCandidate leaseCurrent a).map (Prod.map id (·.mapPayload g)) := by
  have hdescribes : (a.mapPayload g).evidenceDescribesCandidate = a.evidenceDescribesCandidate := rfl
  have hfence : (a.mapPayload g).fence = a.fence := rfl
  have hproposal : (a.mapPayload g).proposalId = a.proposalId := rfl
  have hattempt : (a.mapPayload g).attempt = a.attempt := rfl
  have hevidence : (a.mapPayload g).evidence = a.evidence := rfl
  have hnow : (a.mapPayload g).now = a.now := rfl
  have harchive : (a.mapPayload g).archiveParked = a.archiveParked := rfl
  unfold admitExecutionCandidate
  simp only [hdescribes, hfence, hproposal, hattempt, hevidence, hnow, harchive,
    metadata_mapPayload, activeExecution_mapPayload, state_mapPayload, hasCandidate_mapPayload,
    CandidateAdmission.mapPayload_delta, DeltaObject.mapPayload_nonce,
    DeltaObject.mapPayload_prevCommitment, supersedeParked_mapPayload, insertDelta_mapPayload]
  by_cases hdesc : a.evidenceDescribesCandidate
  · simp only [hdesc, if_true]
    cases db.metadata with
    | none => rfl
    | some metadata =>
      cases db.activeExecution with
      | none => rfl
      | some active =>
        by_cases hauth : active.reservation.authorizes a.fence a.proposalId a.attempt = false ∨
            active.evidence.isSome
        · simp only [hauth, if_true]
          rfl
        simp only [hauth, if_false]
        by_cases howns : ownsLive leaseCurrent active a.fence
        · simp only [howns, if_true]
          cases db.state with
          | none => rfl
          | some state =>
            simp only [Option.map_some, StateObject.mapPayload_commitment]
            by_cases hbase : state.commitment ≠ a.delta.prevCommitment
            · simp [hbase]
            simp only [hbase, if_false]
            by_cases hinactive : metadata.pausedAt.isSome ∨ metadata.releasedAt.isSome
            · simp [hinactive]
            simp only [hinactive, if_false]
            by_cases hcand : db.hasCandidate
            · simp [hcand]
            simp only [hcand, if_false, Bool.false_eq_true]
            cases (db.supersedeParked a.delta.nonce a.now a.archiveParked).insertDelta a.delta with
            | none => rfl
            | some db₂ =>
              by_cases hcolumn : nonceColumn a.delta.nonce < 0 <;> simp [hcolumn]
        · simp [howns]
  · simp [hdesc]

theorem settlePromotedExecution_mapPayload (leaseCurrent : Bool) (fence : LeaseFence) (now : Time) :
    (db.mapPayload g).settlePromotedExecution leaseCurrent fence now =
      (db.settlePromotedExecution leaseCurrent fence now).map (Prod.map id (·.mapPayload g)) := by
  unfold settlePromotedExecution
  simp only [metadata_mapPayload, activeExecution_mapPayload, state_mapPayload, rowAt_mapPayload,
    settle_mapPayload]
  cases db.metadata with
  | none => rfl
  | some metadata =>
    cases db.activeExecution with
    | none => rfl
    | some r =>
      by_cases howns : ownsLive leaseCurrent r fence
      · simp only [howns, if_true]
        cases r.evidence with
        | none => rfl
        | some evidence =>
          cases db.state with
          | none => rfl
          | some state =>
            have hcanonical : ((db.rowAt evidence.candidateNonce).map (·.mapPayload g)).any
                (·.delta.status.isCanonical) =
                (db.rowAt evidence.candidateNonce).any (·.delta.status.isCanonical) := by
              cases db.rowAt evidence.candidateNonce <;> rfl
            simp only [Option.map_some, StateObject.mapPayload_commitment, hcanonical]
            by_cases hdone : (db.rowAt evidence.candidateNonce).any (·.delta.status.isCanonical) ∧
                eqIgnoreAsciiCase state.commitment evidence.expectedCommitment
            · simp only [hdone, and_self, if_true, Option.map_map]
              rfl
            · simp only [hdone, if_false]
              rfl
      · simp [howns]

theorem resolveExecution_mapPayload (leaseCurrent : Bool) (resolution : ExecutionResolution)
    (boundaryCrossed : Bool) :
    (db.mapPayload g).resolveExecution leaseCurrent resolution boundaryCrossed =
      (db.resolveExecution leaseCurrent resolution boundaryCrossed).map
        (Prod.map id (·.mapPayload g)) := by
  have hfilter : ∀ db₁ : Db, ({ db₁.mapPayload g with
      proposals := (db₁.mapPayload g).proposals.filter (·.commitment != resolution.proposalId) } :
        Db) =
      ({ db₁ with
        proposals := db₁.proposals.filter (·.commitment != resolution.proposalId) } :
          Db).mapPayload g := by
    intro db₁
    simp only [mapPayload, List.filter_map, Function.comp_def, ProposalRecord.mapPayload_commitment]
  unfold resolveExecution
  simp only [metadata_mapPayload, attemptRecord_mapPayload]
  cases db.metadata with
  | none => rfl
  | some metadata =>
    cases db.attemptRecord resolution.proposalId resolution.attempt with
    | none => rfl
    | some r =>
      by_cases houtcome : r.outcome.isSome
      · simp [houtcome]
      by_cases hauth : r.reservation.authorizes resolution.fence resolution.proposalId
          resolution.attempt = false
      · simp [houtcome, hauth]
      by_cases howns : ownsLive leaseCurrent r resolution.fence
      · by_cases hside : r.boundaryCrossed ≠ boundaryCrossed
        · simp [houtcome, hauth, howns, hside]
        simp only [houtcome, hauth, howns, hside, if_true, if_false, Bool.false_eq_true,
          Bool.true_eq_false]
        cases r.evidence with
        | none =>
          simp only [settle_mapPayload, Option.map_map]
          rfl
        | some evidence =>
          simp only [deleteRow_mapPayload]
          by_cases hends : resolution.failure.endsProposal
          · simp only [hends, if_true, hfilter, clearPendingFlagIfNone_mapPayload,
              settle_mapPayload, Option.map_map]
            rfl
          · simp only [hends, if_false, Bool.false_eq_true, clearPendingFlagIfNone_mapPayload,
              settle_mapPayload, Option.map_map]
            rfl
      · simp [houtcome, hauth, howns]

theorem replaceState_mapPayload (state : StateObject) (expected : Commitment) :
    (db.mapPayload g).replaceState (state.mapPayload g) expected =
      (db.replaceState state expected).map (Prod.map id (·.mapPayload g)) := by
  unfold replaceState
  cases hstate : db.state with
  | none => simp [hstate]
  | some current =>
    by_cases hexpected : current.commitment = expected
    · simp only [state_mapPayload, hstate, Option.map_some, StateObject.mapPayload_commitment,
        hexpected, if_true]
      rfl
    · simp [hstate, hexpected]

end Transactions

/-! ## Proposals and the archive -/

section Proposals
variable (g : PayloadMap) (db : Db)

theorem any_commitment_mapPayload (commitment : Commitment) :
    (db.mapPayload g).proposals.any (·.commitment == commitment) =
      db.proposals.any (·.commitment == commitment) := by
  simp only [proposals_mapPayload, List.any_map]
  rfl

theorem submitDeltaProposal_mapPayload (record : ProposalRecord) :
    (db.mapPayload g).submitDeltaProposal (record.mapPayload g) =
      (db.submitDeltaProposal record).mapPayload g := by
  unfold submitDeltaProposal
  rw [ProposalRecord.mapPayload_commitment, any_commitment_mapPayload]
  split
  · rfl
  · simp only [mapPayload, List.map_append, List.map_cons, List.map_nil]

theorem deleteDeltaProposal_mapPayload (id : String) :
    (db.mapPayload g).deleteDeltaProposal id = (db.deleteDeltaProposal id).mapPayload g := by
  simp only [deleteDeltaProposal, mapPayload, List.filter_map, Function.comp_def,
    ProposalRecord.mapPayload_commitment]

theorem pruneSupersededDeltas_mapPayload (before : Time) :
    (db.mapPayload g).pruneSupersededDeltas before =
      (db.pruneSupersededDeltas before).mapPayload g := by
  have hkept := Table.filter_mapped (f := SupersededDelta.mapPayload g)
    (p := fun s => decide (before ≤ s.supersededAt)) (fun _ => rfl) db.superseded
  simp only [pruneSupersededDeltas, mapPayload, hkept]

end Proposals

/-! ## Reads -/

section Reads
variable (g : PayloadMap) (db : Db)

theorem recoverableDeltas_mapPayload (since : Time) : (db.mapPayload g).recoverableDeltas since =
    (db.recoverableDeltas since).map (·.mapPayload g) := by
  unfold recoverableDeltas
  rw [mapPayload]
  simp only
  rw [Table.select_map (DeltaRow.column_mapPayload g) db.deltas fun _ => rfl]
  simp only [List.map_map]
  rfl

theorem supersededDeltas_mapPayload (since : Time) : (db.mapPayload g).supersededDeltas since =
    (db.supersededDeltas since).map (·.mapPayload g) := by
  unfold supersededDeltas
  rw [superseded_mapPayload, Table.filter_mapped (f := SupersededDelta.mapPayload g) (fun _ => rfl),
    Table.insertionSort_mapped (f := SupersededDelta.mapPayload g) (fun _ _ => Iff.rfl)]

end Reads

end Db
end Guardian
