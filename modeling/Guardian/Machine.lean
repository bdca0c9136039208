import Guardian.World

/- Executing a call: `exec` is the one transition function of the development.
   Database effects are the transactions of `Storage`; what is added here is the
   account lock, the failures a call can have, and the ghost record of what
   happened. -/
namespace Guardian

open Interleaving

/-! ## Queries -/

namespace Db

/-- The order of `pull_recent_candidate_deltas` within one account. -/
def recentBefore (a b : DeltaObject) : Bool :=
  decide (a.status.timestamp < b.status.timestamp) ||
    (decide (a.status.timestamp = b.status.timestamp) &&
      decide (nonceColumn a.nonce ≤ nonceColumn b.nonce))

/-- Whether a row lies after the cursor. -/
def afterCursor (cursor : RecentCandidateCursor) (d : DeltaObject) : Bool :=
  decide (cursor.lastStatusTimestamp < d.status.timestamp) ||
    (decide (d.status.timestamp = cursor.lastStatusTimestamp) &&
      match cursor.account with
      | .gt => true
      | .eq => decide (nonceColumn cursor.lastNonce < nonceColumn d.nonce)
      | .lt => false)

/-- `pull_recent_candidate_deltas`: candidates younger than `since` and past the
cursor, as many as the page has room for. -/
def recentCandidates (db : Db) (since : Time) (cursor : Option RecentCandidateCursor) (rows : Nat) :
    List DeltaObject :=
  let recent := (db.candidates.map (·.delta)).filter (fun d =>
    decide (since < d.status.timestamp) && cursor.all (afterCursor · d))
  (recent.insertionSort (fun a b => recentBefore a b = true)).take rows

/-- `pull_recoverable_deltas`. -/
def recoverableDeltas (db : Db) (abandonedSince : Time) : List DeltaObject :=
  (db.deltas.select (fun r => r.delta.status.isRetained ||
    (r.delta.status.isClientAbandoned && decide (abandonedSince ≤ r.delta.status.timestamp)))).map
    (·.delta)

/-- `pull_superseded_deltas`, ordered by the nonce column, then by insertion. -/
def supersededDeltas (db : Db) (since : Time) : List SupersededDelta :=
  (db.superseded.filter (fun s => decide (since ≤ s.supersededAt))).insertionSort
    (fun a b => nonceColumn a.delta.nonce ≤ nonceColumn b.delta.nonce)

def submitDeltaProposal (db : Db) (record : ProposalRecord) : Db :=
  if db.proposals.any (·.commitment == record.commitment) then db
  else { db with proposals := db.proposals ++ [record] }

def deleteDeltaProposal (db : Db) (id : String) : Db :=
  { db with proposals := db.proposals.filter (·.commitment != id) }

/-- The archived rows a prune deletes, with the instant each was archived. -/
def prunedBefore (db : Db) (before : Time) : List (DeltaObject × Time) :=
  (db.superseded.filter (fun s => !decide (before ≤ s.supersededAt))).map
    (fun s => (s.delta, s.supersededAt))

/-- `prune_superseded_deltas`. -/
def pruneSupersededDeltas (db : Db) (before : Time) : Db :=
  { db with superseded := db.superseded.filter (fun s => decide (before ≤ s.supersededAt)) }

end Db

/-- The rows a query answers with. -/
def Query.run (db : Db) (rows : Nat) : (q : Query) → q.Answer
  | .metadataGet => db.metadata
  | .listWithPendingCandidates => db.metadata.any (·.hasPendingCandidate)
  | .pullState => db.state
  | .pullStateHead => db.state.map (fun s => ⟨s.commitment, s.nonce⟩)
  | .pullCandidateDeltas _ => db.candidates.map (·.delta)
  | .hasPendingCandidate => db.hasCandidate
  | .pullRecentCandidateDeltas since cursor => db.recentCandidates since cursor rows
  | .pullRecoverableDeltas since => db.recoverableDeltas since
  | .pullSupersededDeltas since => db.supersededDeltas since
  | .pullDelta nonce => (db.rowAt nonce).map (·.delta)
  | .pullDeltaProposal id => (db.proposals.find? (·.commitment == id)).map (·.proposal)
  | .loadActiveExecution => db.activeExecution

/-- The rows of a query's answer that a pass goes on to write. -/
def Query.held : (q : Query) → q.Answer → List DeltaObject
  | .pullCandidateDeltas true, rows => rows
  | .pullRecentCandidateDeltas _ _, rows => rows
  | .pullRecoverableDeltas _, rows => rows
  | _, _ => []

/-! ## Ghost updates -/

namespace Ghost

/-- The state row was written. -/
def noteState (g : Ghost) (chain : Chain) (c : Commitment) (writer : Option Nat) : Ghost :=
  { g with
    storedLog := c :: g.storedLog
    stateWriter := writer
    offChainStored := g.offChainStored || !decide (c ∈ chain.history) }

/-- A `/configure` wrote its signers. -/
def noteSigners (g : Ghost) (pid : Nat) : Ghost :=
  { g with stateWriter := g.stateWriter.filter (· != pid) }

/-- A candidate was queued. -/
def noteAdmitted (g : Ghost) (delta : DeltaObject) : Ghost :=
  { g with
    admitted := delta :: g.admitted
    wideNonce := g.wideNonce || decide (2^63 ≤ delta.nonce.toNat) }

def noteHeld (g : Ghost) (pid : Nat) (rows : List DeltaObject) : Ghost :=
  { g with held := rows.map (fun d => (pid, d)) ++ g.held }

/-- A pass changed the status of a row. -/
def notePassWrite (g : Ghost) (snapshot : DeltaObject) (row : DeltaRow) : Ghost :=
  { g with passWrites := ⟨snapshot, row⟩ :: g.passWrites }

/-- A pass deleted a row; a retained one counts as dropped since it was
parked. -/
def noteDiscard (g : Ghost) (kind : DeltaStatusKind) (snapshot : DeltaObject) (row : DeltaRow) :
    Ghost :=
  { g.notePassWrite snapshot row with
    dropped := if kind = .retained then (row.delta, row.delta.status.timestamp) :: g.dropped
      else g.dropped }

end Ghost

/-! ## Statements and transactions -/

/-- A statement's effect on the rows; `none` when it fails. -/
def Stmt.run (db : Db) : (s : Stmt) → Option (s.Answer × Db)
  | .submitCandidate delta now policy => db.submitCandidate delta now policy
  | .requestCandidateAbandon nonce new now => db.requestCandidateAbandon nonce new now
  | .submitState state _ => some ((), db.submitState state)
  | .replaceState state expected => db.replaceState state expected
  | .createMetadata metadata => some (db.createMetadata metadata)
  | .setMetadata metadata => some ((), db.setMetadataRow metadata)
  | .clearPendingCandidateIfNone => some ((), db.clearPendingFlagIfNone)
  | .setReleasedIfState now expected => db.setReleasedIfState now expected
  | .clearReleasedIfState expected => db.clearReleasedIfState expected
  | .setPause now => (db.setPause now).map (fun db => ((), db))
  | .clearPause => db.clearPause.map (fun db => ((), db))
  | .submitDeltaProposal record => some ((), db.submitDeltaProposal record)
  | .deleteDeltaProposal id => some ((), db.deleteDeltaProposal id)
  | .pruneSupersededDeltas before => some ((), db.pruneSupersededDeltas before)

/-- What a statement's effect leaves in the ghost record. -/
def Stmt.note (pid : Nat) (chain : Chain) (db : Db) (g : Ghost) : (s : Stmt) → s.Answer → Ghost
  | .submitCandidate delta _ _, .submitted =>
    { g.noteAdmitted delta with acked := delta :: g.acked }
  | .submitState state _, _ => g.noteState chain state.commitment (some pid)
  | .replaceState state _, .replaced => g.noteState chain state.commitment (some pid)
  | .createMetadata metadata, true => { g with createdBy := some (pid, metadata.auth) }
  | .setMetadata _, _ => g.noteSigners pid
  | .pruneSupersededDeltas before, _ =>
    { g with dropped := db.prunedBefore before ++ g.dropped }
  | _, _ => g

/-- A fenced transaction's effect on the rows. -/
def Tx.run (leaseCurrent : Bool) (db : Db) : (tx : Tx) → Option (tx.Answer × Db)
  | .promoteCandidate p => db.promoteCandidate leaseCurrent p
  | .discardCandidate nonce kind _ => db.discardCandidate leaseCurrent nonce kind
  | .updateCandidateStatus nonce status _ => db.updateCandidateStatus leaseCurrent nonce status
  | .createExecutionReservation proposalId fence leaseExpiresAt =>
    db.createExecutionReservation leaseCurrent proposalId fence leaseExpiresAt
  | .renewExecutionReservation fence leaseExpiresAt phase =>
    db.renewExecutionReservation leaseCurrent fence leaseExpiresAt phase
  | .claimExecutionReservation expected claimant leaseExpiresAt =>
    db.claimExecutionReservation leaseCurrent expected claimant leaseExpiresAt
  | .admitExecutionCandidate a => db.admitExecutionCandidate leaseCurrent a
  | .settlePromotedExecution fence now => db.settlePromotedExecution leaseCurrent fence now
  | .resolveExecution resolution crossed => db.resolveExecution leaseCurrent resolution crossed

/-- What a fenced transaction leaves in the ghost record. -/
def Tx.note (chain : Chain) (db : Db) (g : Ghost) : (tx : Tx) → tx.Answer → Ghost
  | .promoteCandidate p, .applied _ => g.noteState chain p.state.commitment none
  | .discardCandidate nonce kind snapshot, .applied =>
    (db.rowAt nonce).elim g (g.noteDiscard kind snapshot)
  | .updateCandidateStatus nonce _ snapshot, .applied =>
    (db.rowAt nonce).elim g (g.notePassWrite snapshot)
  | .admitExecutionCandidate a, .admitted =>
    { g.noteAdmitted a.delta with
      executionRows := ((a.proposalId, a.attempt), db.nextId) :: g.executionRows }
  | _, _ => g

def LeaseCall.run (db : Db) (now : Time) : (l : LeaseCall) → l.Answer × Db
  | .tryAcquire name holderId ttl => db.tryAcquire name holderId ttl now
  | .renew fence ttl => db.renewLease fence ttl now
  | .release fence => ((), db.releaseLease fence now)

/-! ## Nodes -/

/-- A node that serves reads at block `block` answers a call. -/
def NodeCall.run (chain : Chain) (ch : Choice) : (n : NodeCall) → n.Answer
  | .verifyCommitment expected _ => chain.verifyCommitment expected ch.block
  | .observeCommitment expected => (chain.verifyCommitment expected ch.block, ch.block)
  | .findTransactionEndingAt target fromBlock =>
    chain.findTransactionEndingAt target fromBlock ch.block
  | .chainTip => ch.block
  | .submitTransaction .. => ch.submit

/-- Whether the node can answer so: at a block the chain has, and refusing no
transaction the chain includes. -/
def NodeCall.possible (chain : Chain) (ch : Choice) : NodeCall → Bool
  | .submitTransaction proposalId attempt _ => ch.submit = .accepted ∨ ch.fault ≠ .none ∨
      chain.entries.all (·.execution != some (proposalId, attempt))
  | _ => decide (ch.block ≤ chain.tip)

/-- A vouch for a `/configure`, served behind the tip. -/
def NodeCall.vouchesStale (chain : Chain) (ch : Choice) : NodeCall → Bool
  | .verifyCommitment _ .configured => decide (ch.block < chain.tip)
  | _ => false

/-- A transaction that reached a node was sent unless the node refused it. -/
def NodeCall.sends (ch : Choice) : NodeCall → List SentTransaction
  | .submitTransaction proposalId attempt evidence =>
    match ch.fault, ch.submit with
    | .lost, _ | .none, .accepted => [⟨proposalId, attempt, evidence⟩]
    | _, _ => []
  | _ => []

/-- The attempt a node refused. -/
def NodeCall.refuses (ch : Choice) : NodeCall → List (String × Nat)
  | .submitTransaction proposalId attempt _ =>
    match ch.fault, ch.submit with
    | .none, .rejected | .none, .notProcessed => [(proposalId, attempt)]
    | _, _ => []
  | _ => []

/-- What a node call leaves in the ghost record. -/
def NodeCall.note (chain : Chain) (ch : Choice) (g : Ghost) (n : NodeCall) : Ghost :=
  { g with
    staleVouch := g.staleVouch || n.vouchesStale chain ch
    sent := n.sends ch ++ g.sent
    rejected := n.refuses ch ++ g.rejected }

/-! ## One call -/

/-- The process has returned or crashed: it holds nothing any more. -/
def World.finish (w : World) (pid : Nat) : World :=
  { w with
    finished := pid :: w.finished
    lock := w.lock.filter (·.1 != pid)
    ghost := { w.ghost with held := w.ghost.held.filter (·.1 != pid) } }

/-- Execute one call of process `pid`; `none` when it cannot happen now. -/
def exec (pid : Nat) (op : Op) (ch : Choice) (w : World) : Option (Res op × World) :=
  if pid ∈ w.finished then none
  else
    match op with
    | .query q =>
      match ch.fault with
      | .none =>
        let rows := q.run w.db ch.rows
        some (some rows, { w with ghost := w.ghost.noteHeld pid (q.held rows) })
      | _ => some (none, w)
    | .write s =>
      if s.locks && w.lock.isSome then none
      else
        match ch.fault, s.run w.db with
        | .refused, _ | _, none => some (none, w)
        | fault, some (r, db) =>
          some (if fault = .none then some r else none,
            { w with db := db, ghost := s.note pid w.chain w.db w.ghost r })
    | .begin fence =>
      match w.lock with
      | some _ => none
      | none => some ((), { w with lock := some (pid, w.db.leaseFenceIsCurrent fence w.clock) })
    | .commit tx =>
      match w.lock with
      | none => none
      | some (owner, current) =>
        if owner = pid then
          match ch.fault, tx.run current w.db with
          | .refused, _ | _, none => some (none, { w with lock := none })
          | fault, some (r, db) =>
            some (if fault = .none then some r else none,
              { w with db := db, lock := none, ghost := tx.note w.chain w.db w.ghost r })
        else none
    | .lease l =>
      match ch.fault with
      | .refused => some (none, w)
      | fault =>
        let (r, db) := l.run w.db w.clock
        some (if fault = .none then some r else none, { w with db := db })
    | .node n =>
      if n.possible w.chain ch then
        some (if ch.fault = .none then some (n.run w.chain ch) else none,
          { w with ghost := n.note w.chain ch w.ghost })
      else none
    | .now => some (w.clock, w)
    | .flag => some (ch.flag, w)
    | .returns => some ((), w.finish pid)

/-! ## The environment -/

/-- A transaction of the account: the state it executes on, its delta, and the
Guardian attempt it belongs to, if one. -/
structure Move where
  base : StateJson
  payload : Payload
  execution : Option (String × Nat)
  deriving DecidableEq, Repr

inductive Act where
  /-- Time passes. -/
  | tick (seconds : Nat)
  /-- A process crashes. -/
  | crash (pid : Nat)
  /-- A block is produced. -/
  | mine (moves : List Move)

/-- A Guardian transaction can be included only after it was sent, in a block
at or before its expiration, and never once a node refused it. -/
def World.includable (w : World) (m : Move) (result : Commitment) : Bool :=
  match m.execution with
  | none => true
  | some attempt => w.ghost.rejected.all (· != attempt) &&
      w.ghost.sent.any (fun t => (t.proposalId, t.attempt) == attempt &&
        t.evidence.baseCommitment == w.chain.head && t.evidence.expectedCommitment == result &&
        decide (w.chain.tip + 1 ≤ t.evidence.expirationBlock))

/-- The chain entry a transaction makes in the block after the tip: it executes
on the current position, as every transaction names the state it starts from. -/
def World.entry (net : Network) (w : World) (m : Move) : Option ChainEntry :=
  match net.verifyAndApplyDelta w.chain.head m.base m.payload with
  | none => none
  | some applied =>
    if w.includable m applied.commitment then
      some ⟨applied.commitment, w.chain.tip + 1, m.execution⟩
    else none

/-- The transactions of one block, in order. -/
def World.include (net : Network) (w : World) : List Move → Option World
  | [] => some w
  | m :: moves =>
    match w.entry net m with
    | none => none
    | some e =>
      World.include net { w with chain := { w.chain with entries := e :: w.chain.entries } } moves

def act (net : Network) (a : Act) (w : World) : Option World :=
  match a with
  | .tick seconds => some { w with clock := w.clock + seconds }
  | .crash pid => some (w.finish pid)
  | .mine moves =>
    (w.include net moves).map (fun w => { w with chain := { w.chain with tip := w.chain.tip + 1 } })

/-- The machine all processes run on. -/
def machine (net : Network) : Machine Op Res World Choice Act := ⟨exec, act net⟩

end Guardian
