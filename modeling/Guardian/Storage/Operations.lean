import Guardian.Storage.PayloadMap

/- The storage trait on Postgres (`StorageBackend` in `server/src/storage/mod.rs`,
   `storage/postgres.rs`): the operations on one account as one type, with their
   answers. The transactions are those of `Storage.Postgres` and
   `Storage.PostgresExecution`; added here are the plain row writes, the
   proposal writes and the reads by nonce. The reads over all accounts and the
   pages of the dashboard are in `Storage.Backend`; counts, listings of ids and
   the other reads that hold no payload are left out.

   An error is `failed`: its text is left out. Whether the lease of a fenced
   transaction was current, whether a fence names the account's execution lease
   (`ensure_execution_lease`), and the clock are part of the operation. -/
namespace Guardian

/-! ## Proposal admission -/

structure ProposalAdmission where
  commitment : Commitment
  proposal : DeltaObject
  requestBytes : Nat
  maxViableProposals : Nat
  queueTailNonce : Option Nonce
  maxAccountRequestBytes : Nat
  deriving DecidableEq, Repr

inductive ProposalWrite where
  | stored
  | alreadyStored
  | pendingLimit (limit : Nat)
  | accountRequestBytesLimit (limit used : Nat)
  deriving DecidableEq, Repr

def DeltaStatus.isPending : DeltaStatus → Bool
  | .pending .. => true
  | _ => false

/-- The rows of one account and the `request_bytes` column of its proposals. -/
structure AccountStore where
  db : Db
  requestBytes : Commitment → Nat

namespace AccountStore

def empty : AccountStore := ⟨.empty, fun _ => 0⟩

/-! ## Row writes -/

/-- The row of a delta upserted over another: everything but its serial id. -/
def upserted (delta : DeltaObject) (r : DeltaRow) : DeltaRow :=
  { r with delta := { delta with nonce := r.delta.nonce } }

/-- `submit_delta`: an upsert at the nonce. -/
def submitDelta (delta : DeltaObject) (db : Db) : Db :=
  match db.insertDelta delta with
  | some inserted => inserted
  | none =>
    let rows := db.deltas.update (Db.isAt delta.nonce (fun _ => true)) (upserted delta)
      (fun _ => rfl)
    { db with deltas := rows }

/-- `backfill_state_nonce`. -/
def backfillStateNonce (commitment : Commitment) (nonce : Nat) (db : Db) : Bool × Db :=
  if nonce < 2^63 then
    match db.state with
    | none => (false, db)
    | some s =>
      if s.commitment = commitment ∧ s.nonce = none then
        (true, { db with state := some { s with nonce := some nonce } })
      else (false, db)
  else (false, db)

/-! ## Proposals -/

/-- Proposals that still count against the limits: pending, on this base, past
the queue's tail. -/
def viableProposals (a : ProposalAdmission) (db : Db) : List ProposalRecord :=
  let doomedAtOrBelow := (a.queueTailNonce.map nonceColumn).getD (-2^63)
  db.proposals.filter (fun r =>
    r.proposal.prevCommitment == a.proposal.prevCommitment &&
      decide (doomedAtOrBelow < nonceColumn r.proposal.nonce) && r.proposal.status.isPending)

/-- `admit_delta_proposal`. A size, or a sum of sizes, past `i64` is an error. -/
def admitDeltaProposal (a : ProposalAdmission) (s : AccountStore) :
    Option (ProposalWrite × AccountStore) :=
  if 2^63 ≤ a.requestBytes then none
  else
    match s.db.metadata with
    | none => none
    | some _ =>
      if s.db.proposals.any (·.commitment == a.commitment) then some (.alreadyStored, s)
      else if a.maxViableProposals ≤ (viableProposals a s.db).length then
        some (.pendingLimit a.maxViableProposals, s)
      else
        let used := ((viableProposals a s.db).map (fun r => s.requestBytes r.commitment)).sum
        if 2^63 ≤ used then none
        else if a.maxAccountRequestBytes < min (used + a.requestBytes) (2^64 - 1) then
          some (.accountRequestBytesLimit a.maxAccountRequestBytes used, s)
        else some (.stored,
          { db := { s.db with proposals := s.db.proposals ++ [⟨a.commitment, a.proposal⟩] }
            requestBytes := Function.update s.requestBytes a.commitment a.requestBytes })

/-- `submit_delta_proposal`: `ON CONFLICT DO NOTHING`, with no request size. -/
def submitDeltaProposal (record : ProposalRecord) (s : AccountStore) : AccountStore :=
  if s.db.proposals.any (·.commitment == record.commitment) then s
  else
    { db := s.db.submitDeltaProposal record
      requestBytes := Function.update s.requestBytes record.commitment 0 }

/-- `UPDATE delta_proposals SET ... WHERE commitment = .. AND p`. -/
def rewriteProposals (commitment : Commitment) (p : DeltaObject → Bool) (proposal : DeltaObject)
    (db : Db) : Db :=
  { db with proposals := db.proposals.map (fun r =>
      if r.commitment == commitment && p r.proposal then { r with proposal := proposal } else r) }

/-- `update_delta_proposal_if_status`: whether one row was written. -/
def updateDeltaProposalIfStatus (commitment : Commitment) (proposal : DeltaObject)
    (expected : DeltaStatus) (db : Db) : Bool × Db :=
  let written := db.proposals.countP (fun r =>
    r.commitment == commitment && r.proposal.status == expected)
  (written == 1, rewriteProposals commitment (·.status == expected) proposal db)

/-! ## Reads -/

/-- `pull_deltas_after`. -/
def deltasAfter (fromNonce : Nonce) (db : Db) : List DeltaObject :=
  (db.deltas.select (fun r => decide (nonceColumn fromNonce ≤ r.column))).map (·.delta)

/-- `pull_canonical_deltas_after`. -/
def canonicalDeltasAfter (fromNonce : Nonce) (db : Db) : List DeltaObject :=
  (db.deltas.select (fun r => decide (nonceColumn fromNonce ≤ r.column) &&
    r.delta.status.isCanonical)).map (·.delta)

/-- `ORDER BY nonce ASC` over proposals. -/
def columnBefore (a b : ProposalRecord) : Prop :=
  nonceColumn a.proposal.nonce ≤ nonceColumn b.proposal.nonce

instance : DecidableRel columnBefore := fun a b =>
  inferInstanceAs (Decidable (nonceColumn a.proposal.nonce ≤ nonceColumn b.proposal.nonce))

/-- `pull_all_delta_proposals`. -/
def allDeltaProposals (db : Db) : List ProposalRecord := db.proposals.insertionSort columnBefore

/-- `pull_pending_proposals`. -/
def pendingProposals (db : Db) : List ProposalRecord :=
  (db.proposals.filter (·.proposal.status.isPending)).insertionSort columnBefore

end AccountStore

/-! ## Operations -/

inductive StorageOp where
  | submitState (state : StateObject)
  | replaceState (state : StateObject) (expected : Commitment)
  | backfillStateNonce (commitment : Commitment) (nonce : Nat)
  | submitDelta (delta : DeltaObject)
  | deleteDelta (nonce : Nonce)
  | updateDeltaStatus (nonce : Nonce) (status : DeltaStatus)
  | submitCandidate (delta : DeltaObject) (now : Time) (policy : CandidatePolicy)
  | requestCandidateAbandon (nonce : Nonce) (newCommitment : Commitment) (now : Time)
  | promoteCandidate (leaseCurrent : Bool) (p : CandidatePromotion)
  | discardCandidate (leaseCurrent : Bool) (nonce : Nonce) (kind : DeltaStatusKind)
  | updateCandidateStatus (leaseCurrent : Bool) (nonce : Nonce) (status : DeltaStatus)
  | pruneSupersededDeltas (before : Time)
  | submitDeltaProposal (commitment : Commitment) (proposal : DeltaObject)
  | admitDeltaProposal (admission : ProposalAdmission)
  | updateDeltaProposal (commitment : Commitment) (proposal : DeltaObject)
  | updateDeltaProposalIfStatus (commitment : Commitment) (proposal : DeltaObject)
      (expected : DeltaStatus)
  | deleteDeltaProposal (commitment : Commitment)
  | createExecutionReservation (leaseFits leaseCurrent : Bool) (proposalId : String)
      (fence : LeaseFence) (leaseExpiresAt now : Time)
  | renewExecutionReservation (leaseCurrent : Bool) (fence : LeaseFence) (leaseExpiresAt : Time)
      (phase : ExecutionPhase) (now : Time)
  | claimExecutionReservation (leaseFits leaseCurrent : Bool) (expected claimant : LeaseFence)
      (leaseExpiresAt now : Time)
  | admitExecutionCandidate (leaseCurrent : Bool) (admission : CandidateAdmission)
  | settlePromotedExecution (leaseCurrent : Bool) (fence : LeaseFence) (now : Time)
  | resolveExecution (leaseCurrent : Bool) (resolution : ExecutionResolution)
      (boundaryCrossed : Bool)
  | pullState
  | pullStateHead
  | pullDelta (nonce : Nonce)
  | pullDeltasAfter (fromNonce : Nonce)
  | pullCanonicalDeltasAfter (fromNonce : Nonce)
  | hasPendingCandidate
  | pullCandidateDeltas
  | pullRecoverableDeltas (abandonedSince : Time)
  | pullSupersededDeltas (since : Time)
  | pullDeltaProposal (commitment : Commitment)
  | pullAllDeltaProposals
  | pullPendingProposals
  | loadActiveExecution
  /-- What the metadata store writes between two operations. -/
  | metadata (change : Option AccountMetadata → Option AccountMetadata)

inductive StorageAnswer where
  | failed
  | done
  | flag (value : Bool)
  | count (rows : Nat)
  | replaced (write : StateReplace)
  | submission (outcome : CandidateSubmission)
  | abandon (intent : AbandonIntent)
  | promotion (write : PromoteWrite)
  | canonical (write : CanonicalWrite)
  | admittedProposal (write : ProposalWrite)
  | reservation (write : ReservationWrite)
  | renewal (update : ReservationUpdate)
  | claim (write : ClaimWrite)
  | admission (write : AdmissionWrite)
  | settlement (write : SettleWrite)
  | resolution (write : ResolveWrite)
  | head (head : Option StateHead)
  | execution (record : Option ExecutionRecord)
  | state (state : Option StateObject)
  | delta (delta : Option DeltaObject)
  | deltas (deltas : List DeltaObject)
  | superseded (deltas : List SupersededDelta)
  /-- The proposal asked for under a commitment. -/
  | proposal (commitment : Commitment) (proposal : Option DeltaObject)
  | proposals (records : List ProposalRecord)
  deriving DecidableEq, Repr

namespace AccountStore

/-- A transaction over the rows: an error rolls back. -/
def transact {α : Type} (s : AccountStore) (answer : α → StorageAnswer) :
    Option (α × Db) → StorageAnswer × AccountStore
  | none => (.failed, s)
  | some (a, db) => (answer a, { s with db := db })

/-- A statement that cannot fail. -/
def write (s : AccountStore) (db : Db) : StorageAnswer × AccountStore := (.done, { s with db := db })

/-- One operation. -/
def perform (s : AccountStore) : StorageOp → StorageAnswer × AccountStore
  | .submitState state => s.write (s.db.submitState state)
  | .replaceState state expected => s.transact .replaced (s.db.replaceState state expected)
  | .backfillStateNonce commitment nonce =>
    s.transact .flag (some (backfillStateNonce commitment nonce s.db))
  | .submitDelta delta => s.write (submitDelta delta s.db)
  | .deleteDelta nonce => s.write (s.db.deleteRow nonce (fun _ => true))
  | .updateDeltaStatus nonce status =>
    s.write (s.db.updateRow nonce (fun _ => true) (fun _ => status) id)
  | .submitCandidate delta now policy =>
    s.transact .submission (s.db.submitCandidate delta now policy)
  | .requestCandidateAbandon nonce new now =>
    s.transact .abandon (s.db.requestCandidateAbandon nonce new now)
  | .promoteCandidate leaseCurrent p => s.transact .promotion (s.db.promoteCandidate leaseCurrent p)
  | .discardCandidate leaseCurrent nonce kind =>
    s.transact .canonical (s.db.discardCandidate leaseCurrent nonce kind)
  | .updateCandidateStatus leaseCurrent nonce status =>
    s.transact .canonical (s.db.updateCandidateStatus leaseCurrent nonce status)
  | .pruneSupersededDeltas before =>
    (.count (s.db.prunedBefore before).length, { s with db := s.db.pruneSupersededDeltas before })
  | .submitDeltaProposal commitment proposal =>
    (.done, s.submitDeltaProposal ⟨commitment, proposal⟩)
  | .admitDeltaProposal a =>
    match s.admitDeltaProposal a with
    | none => (.failed, s)
    | some (write, s') => (.admittedProposal write, s')
  | .updateDeltaProposal commitment proposal =>
    s.write (rewriteProposals commitment (fun _ => true) proposal s.db)
  | .updateDeltaProposalIfStatus commitment proposal expected =>
    s.transact .flag (some (updateDeltaProposalIfStatus commitment proposal expected s.db))
  | .deleteDeltaProposal commitment => s.write (s.db.deleteDeltaProposal commitment)
  | .createExecutionReservation leaseFits leaseCurrent proposalId fence leaseExpiresAt _ =>
    s.transact .reservation (if leaseFits then
      s.db.createExecutionReservation leaseCurrent proposalId fence leaseExpiresAt else none)
  | .renewExecutionReservation leaseCurrent fence leaseExpiresAt phase _ =>
    s.transact .renewal (s.db.renewExecutionReservation leaseCurrent fence leaseExpiresAt phase)
  | .claimExecutionReservation leaseFits leaseCurrent expected claimant leaseExpiresAt _ =>
    s.transact .claim (if leaseFits then
      s.db.claimExecutionReservation leaseCurrent expected claimant leaseExpiresAt else none)
  | .admitExecutionCandidate leaseCurrent a =>
    s.transact .admission (s.db.admitExecutionCandidate leaseCurrent a)
  | .settlePromotedExecution leaseCurrent fence now =>
    s.transact .settlement (s.db.settlePromotedExecution leaseCurrent fence now)
  | .resolveExecution leaseCurrent resolution crossed =>
    s.transact .resolution (s.db.resolveExecution leaseCurrent resolution crossed)
  | .pullState => (.state s.db.state, s)
  | .pullStateHead => (.head (s.db.state.map (fun st => ⟨st.commitment, st.nonce⟩)), s)
  | .pullDelta nonce => (.delta ((s.db.rowAt nonce).map (·.delta)), s)
  | .pullDeltasAfter fromNonce => (.deltas (deltasAfter fromNonce s.db), s)
  | .pullCanonicalDeltasAfter fromNonce => (.deltas (canonicalDeltasAfter fromNonce s.db), s)
  | .hasPendingCandidate => (.flag s.db.hasCandidate, s)
  | .pullCandidateDeltas => (.deltas (s.db.candidates.map (·.delta)), s)
  | .pullRecoverableDeltas since => (.deltas (s.db.recoverableDeltas since), s)
  | .pullSupersededDeltas since => (.superseded (s.db.supersededDeltas since), s)
  | .pullDeltaProposal commitment =>
    (.proposal commitment
      ((s.db.proposals.find? (·.commitment == commitment)).map (·.proposal)), s)
  | .pullAllDeltaProposals => (.proposals (allDeltaProposals s.db), s)
  | .pullPendingProposals => (.proposals (pendingProposals s.db), s)
  | .loadActiveExecution => (.execution s.db.activeExecution, s)
  | .metadata change => s.write { s.db with metadata := change s.db.metadata }

end AccountStore

/-! ## Payloads -/

/-- The operation with every payload it hands over rewritten. -/
def StorageOp.mapPayload (g : PayloadMap) : StorageOp → StorageOp
  | .submitState state => .submitState (state.mapPayload g)
  | .replaceState state expected => .replaceState (state.mapPayload g) expected
  | .submitDelta delta => .submitDelta (delta.mapPayload g)
  | .submitCandidate delta now policy => .submitCandidate (delta.mapPayload g) now policy
  | .promoteCandidate leaseCurrent p => .promoteCandidate leaseCurrent (p.mapPayload g)
  | .submitDeltaProposal commitment proposal =>
    .submitDeltaProposal commitment (proposal.mapProposal g commitment)
  | .admitDeltaProposal a =>
    .admitDeltaProposal { a with proposal := a.proposal.mapProposal g a.commitment }
  | .updateDeltaProposal commitment proposal =>
    .updateDeltaProposal commitment (proposal.mapProposal g commitment)
  | .updateDeltaProposalIfStatus commitment proposal expected =>
    .updateDeltaProposalIfStatus commitment (proposal.mapProposal g commitment) expected
  | .admitExecutionCandidate leaseCurrent a => .admitExecutionCandidate leaseCurrent (a.mapPayload g)
  | op => op

/-- The answer with every payload in it rewritten. -/
def StorageAnswer.mapPayload (g : PayloadMap) : StorageAnswer → StorageAnswer
  | .state s => .state (s.map (·.mapPayload g))
  | .delta d => .delta (d.map (·.mapPayload g))
  | .deltas ds => .deltas (ds.map (·.mapPayload g))
  | .superseded ds => .superseded (ds.map (·.mapPayload g))
  | .proposal c d => .proposal c (d.map (·.mapProposal g c))
  | .proposals rs => .proposals (rs.map (·.mapPayload g))
  | answer => answer

namespace AccountStore

def mapPayload (g : PayloadMap) (s : AccountStore) : AccountStore :=
  { s with db := s.db.mapPayload g }

section Natural
variable (g : PayloadMap) (db : Db) (s : AccountStore)

theorem submitDelta_mapPayload (delta : DeltaObject) :
    submitDelta (delta.mapPayload g) (db.mapPayload g) = (submitDelta delta db).mapPayload g := by
  unfold submitDelta
  rw [Db.insertDelta_mapPayload]
  cases db.insertDelta delta with
  | some inserted => rfl
  | none =>
    have hrows := Table.update_map (DeltaRow.column_mapPayload g) db.deltas
      (p := Db.isAt delta.nonce (fun _ => true)) (u := upserted (delta.mapPayload g))
      (fun _ => rfl) (v := upserted delta) (fun _ => rfl) (fun _ => rfl) fun r hr => by
        -- the row it rewrites is at the delta's own nonce
        have hnonce : r.delta.nonce = delta.nonce := by simpa [Db.isAt] using hr
        simp only [upserted, DeltaRow.mapPayload, DeltaObject.mapPayload, hnonce]
    simp only [Option.map_none, Db.mapPayload, DeltaObject.mapPayload_nonce]
    rw [hrows]

theorem backfillStateNonce_mapPayload (commitment : Commitment) (nonce : Nat) :
    backfillStateNonce commitment nonce (db.mapPayload g) =
      Prod.map id (·.mapPayload g) (backfillStateNonce commitment nonce db) := by
  unfold backfillStateNonce
  rw [Db.state_mapPayload]
  split
  · cases hstate : db.state with
    | none => rfl
    | some st =>
      by_cases hmatch : st.commitment = commitment ∧ st.nonce = none
      · simp only [Option.map_some, StateObject.mapPayload, hmatch, and_self, if_true]
        rfl
      · simp only [Option.map_some, StateObject.mapPayload, hmatch, if_false]
        rfl
  · rfl

theorem viableProposals_mapPayload (a : ProposalAdmission) :
    viableProposals { a with proposal := a.proposal.mapProposal g a.commitment }
      (db.mapPayload g) = (viableProposals a db).map (·.mapPayload g) := by
  unfold viableProposals
  exact Table.filter_mapped (f := ProposalRecord.mapPayload g) (fun _ => rfl) db.proposals

theorem rewriteProposals_mapPayload (commitment : Commitment) {p : DeltaObject → Bool}
    (hp : ∀ c d, p (d.mapProposal g c) = p d) (proposal : DeltaObject) :
    rewriteProposals commitment p (proposal.mapProposal g commitment) (db.mapPayload g) =
      (rewriteProposals commitment p proposal db).mapPayload g := by
  unfold rewriteProposals Db.mapPayload
  simp only [List.map_map, Db.mk.injEq, true_and, and_true]
  refine List.map_congr_left fun r _ => ?_
  simp only [Function.comp_apply, ProposalRecord.mapPayload_commitment,
    ProposalRecord.mapPayload_proposal, hp]
  split
  · next hr =>
    have hc : r.commitment = commitment := by
      rw [Bool.and_eq_true, beq_iff_eq] at hr
      exact hr.1
    subst hc
    rfl
  · rfl

theorem deltasAfter_mapPayload (fromNonce : Nonce) :
    deltasAfter fromNonce (db.mapPayload g) = (deltasAfter fromNonce db).map (·.mapPayload g) := by
  have hrows := Table.select_map (DeltaRow.column_mapPayload g) db.deltas
    (p := fun r => decide (nonceColumn fromNonce ≤ r.column)) fun _ => rfl
  unfold deltasAfter
  rw [show (db.mapPayload g).deltas = db.deltas.map (·.mapPayload g) (DeltaRow.column_mapPayload g)
    from rfl, hrows, List.map_map, List.map_map]
  rfl

theorem canonicalDeltasAfter_mapPayload (fromNonce : Nonce) :
    canonicalDeltasAfter fromNonce (db.mapPayload g) =
      (canonicalDeltasAfter fromNonce db).map (·.mapPayload g) := by
  have hrows := Table.select_map (DeltaRow.column_mapPayload g) db.deltas
    (p := fun r => decide (nonceColumn fromNonce ≤ r.column) && r.delta.status.isCanonical)
    fun _ => rfl
  unfold canonicalDeltasAfter
  rw [show (db.mapPayload g).deltas = db.deltas.map (·.mapPayload g) (DeltaRow.column_mapPayload g)
    from rfl, hrows, List.map_map, List.map_map]
  rfl

theorem allDeltaProposals_mapPayload :
    allDeltaProposals (db.mapPayload g) = (allDeltaProposals db).map (·.mapPayload g) :=
  Table.insertionSort_mapped (f := ProposalRecord.mapPayload g) (fun _ _ => Iff.rfl) db.proposals

theorem pendingProposals_mapPayload :
    pendingProposals (db.mapPayload g) = (pendingProposals db).map (·.mapPayload g) := by
  unfold pendingProposals
  rw [Db.proposals_mapPayload, Table.filter_mapped (f := ProposalRecord.mapPayload g) (fun _ => rfl),
    Table.insertionSort_mapped (f := ProposalRecord.mapPayload g) (fun _ _ => Iff.rfl)]

theorem admitDeltaProposal_mapPayload (a : ProposalAdmission) :
    (s.mapPayload g).admitDeltaProposal
        { a with proposal := a.proposal.mapProposal g a.commitment } =
      (s.admitDeltaProposal a).map (Prod.map id (·.mapPayload g)) := by
  have hviable := viableProposals_mapPayload g s.db a
  have hstored := Db.any_commitment_mapPayload g s.db a.commitment
  have hused : ((viableProposals a s.db).map (·.mapPayload g)).map
      (fun r => s.requestBytes r.commitment) =
      (viableProposals a s.db).map (fun r => s.requestBytes r.commitment) := by
    rw [List.map_map]
    rfl
  have hrows : ({ s.db.mapPayload g with proposals := (s.db.mapPayload g).proposals ++
      [⟨a.commitment, a.proposal.mapProposal g a.commitment⟩] } : Db) =
      ({ s.db with proposals := s.db.proposals ++ [⟨a.commitment, a.proposal⟩] } :
        Db).mapPayload g := by
    simp only [Db.mapPayload, List.map_append, List.map_cons, List.map_nil]
    rfl
  unfold admitDeltaProposal
  simp only [show (s.mapPayload g).db = s.db.mapPayload g from rfl,
    show (s.mapPayload g).requestBytes = s.requestBytes from rfl, hviable, hstored, hrows,
    List.length_map, hused]
  rw [Db.metadata_mapPayload]
  cases s.db.metadata with
  | none => split <;> rfl
  | some metadata =>
    simp only [apply_ite (Option.map _)]
    rfl

theorem submitDeltaProposal_mapPayload (record : ProposalRecord) :
    (s.mapPayload g).submitDeltaProposal (record.mapPayload g) =
      (s.submitDeltaProposal record).mapPayload g := by
  unfold submitDeltaProposal
  have hstored := Db.any_commitment_mapPayload g s.db record.commitment
  simp only [show (s.mapPayload g).db = s.db.mapPayload g from rfl,
    ProposalRecord.mapPayload_commitment, hstored, Db.submitDeltaProposal_mapPayload]
  split <;> rfl

theorem transact_mapPayload {α : Type} {answer : α → StorageAnswer}
    (hanswer : ∀ a, (answer a).mapPayload g = answer a) {r r' : Option (α × Db)}
    (h : r' = r.map (Prod.map id (·.mapPayload g))) :
    (s.mapPayload g).transact answer r' =
      Prod.map (·.mapPayload g) (·.mapPayload g) (s.transact answer r) := by
  subst h
  cases r with
  | none => rfl
  | some r => exact Prod.ext (hanswer r.1).symm rfl

theorem transact_some_mapPayload {α : Type} {answer : α → StorageAnswer}
    (hanswer : ∀ a, (answer a).mapPayload g = answer a) {x x' : α × Db}
    (h : x' = Prod.map id (·.mapPayload g) x) :
    (s.mapPayload g).transact answer (some x') =
      Prod.map (·.mapPayload g) (·.mapPayload g) (s.transact answer (some x)) := by
  subst h
  exact s.transact_mapPayload g hanswer rfl

/-- The answer and the rows of a statement that cannot fail. -/
theorem write_mapPayload {rows rows' : Db} (h : rows = rows'.mapPayload g) :
    (s.mapPayload g).write rows = Prod.map (·.mapPayload g) (·.mapPayload g) (s.write rows') := by
  subst h
  rfl

/-- The answer of a read. -/
theorem read_mapPayload {a b : StorageAnswer} (h : a = b.mapPayload g) :
    (a, s.mapPayload g) = Prod.map (·.mapPayload g) (·.mapPayload g) (b, s) := by
  subst h
  rfl

/-- Operations do not look into payloads. -/
theorem perform_mapPayload (op : StorageOp) : (s.mapPayload g).perform (op.mapPayload g) =
    Prod.map (·.mapPayload g) (·.mapPayload g) (s.perform op) := by
  cases op with
  | submitState state => exact s.write_mapPayload g rfl
  | replaceState state expected =>
    exact s.transact_mapPayload g (fun _ => rfl)
      (Db.replaceState_mapPayload g s.db state expected)
  | backfillStateNonce commitment nonce =>
    exact s.transact_some_mapPayload g (fun _ => rfl)
      (backfillStateNonce_mapPayload g s.db commitment nonce)
  | submitDelta delta => exact s.write_mapPayload g (submitDelta_mapPayload g s.db delta)
  | deleteDelta nonce => exact s.write_mapPayload g (Db.deleteRow_mapPayload g s.db nonce _)
  | updateDeltaStatus nonce status =>
    exact s.write_mapPayload g (Db.updateRow_mapPayload g s.db nonce _ _ _)
  | submitCandidate delta now policy =>
    exact s.transact_mapPayload g (fun _ => rfl)
      (Db.submitCandidate_mapPayload g s.db delta now policy)
  | requestCandidateAbandon nonce new now =>
    exact s.transact_mapPayload g (fun _ => rfl)
      (Db.requestCandidateAbandon_mapPayload g s.db nonce new now)
  | promoteCandidate leaseCurrent p =>
    exact s.transact_mapPayload g (fun _ => rfl)
      (Db.promoteCandidate_mapPayload g s.db leaseCurrent p)
  | discardCandidate leaseCurrent nonce kind =>
    exact s.transact_mapPayload g (fun _ => rfl)
      (Db.discardCandidate_mapPayload g s.db leaseCurrent nonce kind)
  | updateCandidateStatus leaseCurrent nonce status =>
    exact s.transact_mapPayload g (fun _ => rfl)
      (Db.updateCandidateStatus_mapPayload g s.db leaseCurrent nonce status)
  | pruneSupersededDeltas before =>
    have hpruned : ((s.db.mapPayload g).prunedBefore before).length =
        (s.db.prunedBefore before).length := by
      unfold Db.prunedBefore
      rw [Db.superseded_mapPayload, Table.filter_mapped (f := SupersededDelta.mapPayload g)
        (fun _ => rfl), List.length_map, List.length_map, List.length_map]
    have hrows := Db.pruneSupersededDeltas_mapPayload g s.db before
    exact Prod.ext (congrArg StorageAnswer.count hpruned)
      (congrArg (fun rows => ({ s with db := rows } : AccountStore)) hrows)
  | submitDeltaProposal commitment proposal =>
    exact congrArg (fun s' => (StorageAnswer.done, s'))
      (s.submitDeltaProposal_mapPayload g ⟨commitment, proposal⟩)
  | admitDeltaProposal a =>
    simp only [perform, StorageOp.mapPayload, s.admitDeltaProposal_mapPayload g a]
    cases s.admitDeltaProposal a with
    | none => rfl
    | some r => rfl
  | updateDeltaProposal commitment proposal =>
    exact s.write_mapPayload g
      (rewriteProposals_mapPayload g s.db commitment (fun _ _ => rfl) proposal)
  | updateDeltaProposalIfStatus commitment proposal expected =>
    have hcount : (s.db.mapPayload g).proposals.countP (fun r => r.commitment == commitment &&
        r.proposal.status == expected) = s.db.proposals.countP (fun r =>
          r.commitment == commitment && r.proposal.status == expected) := by
      rw [Db.proposals_mapPayload, List.countP_map]
      rfl
    have hrows := rewriteProposals_mapPayload g s.db commitment (p := (·.status == expected))
      (fun _ _ => rfl) proposal
    have hwritten : updateDeltaProposalIfStatus commitment (proposal.mapProposal g commitment)
        expected (s.db.mapPayload g) = Prod.map id (·.mapPayload g)
          (updateDeltaProposalIfStatus commitment proposal expected s.db) := by
      unfold updateDeltaProposalIfStatus
      rw [hcount, hrows]
      rfl
    exact s.transact_some_mapPayload g (fun _ => rfl) hwritten
  | deleteDeltaProposal commitment =>
    exact s.write_mapPayload g (Db.deleteDeltaProposal_mapPayload g s.db commitment)
  | createExecutionReservation leaseFits leaseCurrent proposalId fence leaseExpiresAt now =>
    cases leaseFits with
    | false => rfl
    | true =>
      exact s.transact_mapPayload g (fun _ => rfl) (Db.createExecutionReservation_mapPayload g s.db
        leaseCurrent proposalId fence leaseExpiresAt)
  | renewExecutionReservation leaseCurrent fence leaseExpiresAt phase now =>
    exact s.transact_mapPayload g (fun _ => rfl)
      (Db.renewExecutionReservation_mapPayload g s.db leaseCurrent fence leaseExpiresAt phase)
  | claimExecutionReservation leaseFits leaseCurrent expected claimant leaseExpiresAt now =>
    cases leaseFits with
    | false => rfl
    | true =>
      exact s.transact_mapPayload g (fun _ => rfl) (Db.claimExecutionReservation_mapPayload g s.db
        leaseCurrent expected claimant leaseExpiresAt)
  | admitExecutionCandidate leaseCurrent a =>
    exact s.transact_mapPayload g (fun _ => rfl)
      (Db.admitExecutionCandidate_mapPayload g s.db leaseCurrent a)
  | settlePromotedExecution leaseCurrent fence now =>
    exact s.transact_mapPayload g (fun _ => rfl)
      (Db.settlePromotedExecution_mapPayload g s.db leaseCurrent fence now)
  | resolveExecution leaseCurrent resolution crossed =>
    exact s.transact_mapPayload g (fun _ => rfl)
      (Db.resolveExecution_mapPayload g s.db leaseCurrent resolution crossed)
  | pullState => rfl
  | pullStateHead =>
    refine s.read_mapPayload g (congrArg StorageAnswer.head ?_)
    show ((s.db.state.map (·.mapPayload g)).map _) = _
    rw [Option.map_map]
    rfl
  | pullDelta nonce =>
    refine s.read_mapPayload g (congrArg StorageAnswer.delta ?_)
    show ((s.db.mapPayload g).rowAt nonce).map _ = _
    rw [Db.rowAt_mapPayload, Option.map_map, Option.map_map]
    rfl
  | pullDeltasAfter fromNonce =>
    exact s.read_mapPayload g (congrArg StorageAnswer.deltas
      (deltasAfter_mapPayload g s.db fromNonce))
  | pullCanonicalDeltasAfter fromNonce =>
    exact s.read_mapPayload g (congrArg StorageAnswer.deltas
      (canonicalDeltasAfter_mapPayload g s.db fromNonce))
  | hasPendingCandidate =>
    exact s.read_mapPayload g (congrArg StorageAnswer.flag (Db.hasCandidate_mapPayload g s.db))
  | pullCandidateDeltas =>
    refine s.read_mapPayload g (congrArg StorageAnswer.deltas ?_)
    show (s.db.mapPayload g).candidates.map _ = _
    rw [Db.candidates_mapPayload, List.map_map, List.map_map]
    rfl
  | pullRecoverableDeltas since =>
    exact s.read_mapPayload g (congrArg StorageAnswer.deltas
      (Db.recoverableDeltas_mapPayload g s.db since))
  | pullSupersededDeltas since =>
    exact s.read_mapPayload g (congrArg StorageAnswer.superseded
      (Db.supersededDeltas_mapPayload g s.db since))
  | pullDeltaProposal commitment =>
    refine s.read_mapPayload g (congrArg (StorageAnswer.proposal commitment) ?_)
    show ((s.db.proposals.map (·.mapPayload g)).find? (·.commitment == commitment)).map _ = _
    rw [List.find?_map, Option.map_map, Option.map_map]
    simp only [Function.comp_def, ProposalRecord.mapPayload_commitment]
    cases hfound : s.db.proposals.find? (·.commitment == commitment) with
    | none => rfl
    | some r =>
      -- found under the commitment asked for
      have hc : r.commitment = commitment := by simpa using List.find?_some hfound
      simp only [Option.map_some, ProposalRecord.mapPayload_proposal, hc]
  | pullAllDeltaProposals =>
    exact s.read_mapPayload g (congrArg StorageAnswer.proposals
      (allDeltaProposals_mapPayload g s.db))
  | pullPendingProposals =>
    exact s.read_mapPayload g (congrArg StorageAnswer.proposals
      (pendingProposals_mapPayload g s.db))
  | loadActiveExecution => rfl
  | metadata change => rfl

end Natural

end AccountStore
end Guardian
