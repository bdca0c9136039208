import Guardian.Machine
import Guardian.Storage.Transactions

/- What one call can do to the world: `exec_effect` inverts `exec` once and for
   all, so that an invariant is proved by one case for each `Effect`. A call
   that fails, is refused or only looks has effect `idle`. -/
namespace Guardian

open Interleaving

/-- Only metadata columns other than the signer set and the queue flag, or
proposals, changed. -/
structure Db.Plain (db db' : Db) : Prop where
  state : db'.state = db.state
  deltas : db'.deltas = db.deltas
  nextId : db'.nextId = db.nextId
  superseded : db'.superseded = db.superseded
  executions : db'.executions = db.executions
  metadata : db'.metadata.map (fun m => (m.auth, m.hasPendingCandidate)) =
    db.metadata.map (fun m => (m.auth, m.hasPendingCandidate))

theorem Db.Plain.refl (db : Db) : db.Plain db := ⟨rfl, rfl, rfl, rfl, rfl, rfl⟩

theorem Db.plain_setMetadata {db : Db} {f : AccountMetadata → AccountMetadata}
    (h : ∀ m, (f m).auth = m.auth ∧ (f m).hasPendingCandidate = m.hasPendingCandidate) :
    db.Plain (db.setMetadata f) where
  state := rfl
  deltas := rfl
  nextId := rfl
  superseded := rfl
  executions := rfl
  metadata := by
    simp only [setMetadata, Option.map_map]
    congr 1
    funext m
    simp [h m]

/-- The transaction renews an execution reservation or moves it. -/
def Tx.renews : Tx → Bool
  | .renewExecutionReservation .. | .claimExecutionReservation .. => true
  | _ => false

/-- What a call of process `pid` can do. -/
inductive Effect (pid : Nat) (w : World) : Op → World → Prop where
  | idle {op : Op} : Effect pid w op w
  | read (q : Query) (rows : Nat) : Effect pid w (.query q)
      { w with ghost := w.ghost.noteHeld pid (q.held (q.run w.db rows)) }
  | submitted {delta : DeltaObject} {now : Time} {policy : CandidatePolicy} {db' : Db}
      (h : Db.Submitted delta now policy w.db db') :
      Effect pid w (.write (.submitCandidate delta now policy))
        { w with db := db', ghost := { w.ghost.noteAdmitted delta with
            acked := delta :: w.ghost.acked } }
  | abandonRecorded {nonce : Nonce} {new : Commitment} {now : Time} {row : DeltaRow} {db' : Db}
      (h : Db.AbandonRecorded nonce now row w.db db') :
      Effect pid w (.write (.requestCandidateAbandon nonce new now)) { w with db := db' }
  | stateSubmitted {state : StateObject} {created : Bool} :
      Effect pid w (.write (.submitState state created))
        { w with db := { w.db with state := some state.asStored }
                 ghost := w.ghost.noteState w.chain state.commitment (some pid) }
  | stateReplaced {state current : StateObject} (h : w.db.state = some current) :
      Effect pid w (.write (.replaceState state current.commitment))
        { w with db := { w.db with state := some state.asStored }
                 ghost := w.ghost.noteState w.chain state.commitment (some pid) }
  | metadataCreated {metadata : AccountMetadata} (h : w.db.metadata = none) :
      Effect pid w (.write (.createMetadata metadata))
        { w with db := { w.db with metadata := some metadata }
                 ghost := { w.ghost with createdBy := some (pid, metadata.auth) } }
  | authSet {metadata : AccountMetadata} :
      Effect pid w (.write (.setMetadata metadata))
        { w with db := w.db.setMetadataRow metadata, ghost := w.ghost.noteSigners pid }
  | flagCleared : Effect pid w (.write .clearPendingCandidateIfNone)
      { w with db := w.db.clearPendingFlagIfNone }
  | plain {s : Stmt} {db' : Db} (h : w.db.Plain db') : Effect pid w (.write s) { w with db := db' }
  | pruned {before : Time} : Effect pid w (.write (.pruneSupersededDeltas before))
      { w with db := w.db.pruneSupersededDeltas before
               ghost := { w.ghost with dropped := w.db.prunedBefore before ++ w.ghost.dropped } }
  | began {fence : LeaseFence} (h : w.lock = none) : Effect pid w (.begin fence)
      { w with lock := some (pid, w.db.leaseFenceIsCurrent fence w.clock) }
  | rolledBack {tx : Tx} : Effect pid w (.commit tx) { w with lock := none }
  | promoted {p : CandidatePromotion} {db' : Db} (h : Db.Promoted p w.db db') :
      Effect pid w (.commit (.promoteCandidate p))
        { w with db := db', lock := none
                 ghost := w.ghost.noteState w.chain p.state.commitment none }
  | discarded {nonce : Nonce} {kind : DeltaStatusKind} {snapshot : DeltaObject} {row : DeltaRow}
      {db' : Db} (h : Db.Discarded nonce kind row w.db db') :
      Effect pid w (.commit (.discardCandidate nonce kind snapshot))
        { w with db := db', lock := none
                 ghost := w.ghost.noteDiscard kind snapshot row }
  | updated {nonce : Nonce} {status : DeltaStatus} {snapshot : DeltaObject} {row : DeltaRow}
      {db' : Db} (h : Db.Updated nonce status row w.db db') :
      Effect pid w (.commit (.updateCandidateStatus nonce status snapshot))
        { w with db := db', lock := none
                 ghost := w.ghost.notePassWrite snapshot row }
  | reserved {proposalId : String} {fence : LeaseFence} {expiresAt : Time}
      {record : ExecutionRecord} {db' : Db} (h : Db.Reserved record w.db db') :
      Effect pid w (.commit (.createExecutionReservation proposalId fence expiresAt))
        { w with db := db', lock := none }
  | renewed {tx : Tx} {db' : Db} (h : Db.Renewed w.db db') (call : tx.renews = true) :
      Effect pid w (.commit tx) { w with db := db', lock := none }
  | admitted {a : CandidateAdmission} {db' : Db} (h : Db.Admitted a w.db db') :
      Effect pid w (.commit (.admitExecutionCandidate a))
        { w with db := db', lock := none
                 ghost := { w.ghost.noteAdmitted a.delta with
                   executionRows := ((a.proposalId, a.attempt), w.db.nextId) ::
                     w.ghost.executionRows } }
  | settled {fence : LeaseFence} {now : Time} {db' : Db} (h : Db.SettledPromoted now w.db db') :
      Effect pid w (.commit (.settlePromotedExecution fence now))
        { w with db := db', lock := none }
  | resolved {resolution : ExecutionResolution} {crossed : Bool} {db' : Db}
      (h : Db.Resolved resolution crossed w.db db') :
      Effect pid w (.commit (.resolveExecution resolution crossed))
        { w with db := db', lock := none }
  | leased {l : LeaseCall} {leases : String → Option LeaseRow} :
      Effect pid w (.lease l) { w with db := { w.db with leases := leases } }
  | asked {n : NodeCall} {ch : Choice} (h : n.possible w.chain ch = true) :
      Effect pid w (.node n) { w with ghost := n.note w.chain ch w.ghost }
  | returned : Effect pid w .returns (w.finish pid)

variable {pid : Nat} {w w' : World} {ch : Choice}

/-- A statement that took effect. -/
theorem Stmt.run_effect {s : Stmt} {a : s.Answer} {db' : Db} (h : s.run w.db = some (a, db')) :
    Effect pid w (.write s) { w with db := db', ghost := s.note pid w.chain w.db w.ghost a } := by
  cases s with
  | submitCandidate delta now policy =>
    rcases Db.submitCandidate_cases h with ⟨hr, rfl⟩ | ⟨rfl, hs⟩
    · cases a <;> first | exact .idle | exact absurd rfl hr
    · exact .submitted hs
  | requestCandidateAbandon nonce new now =>
    rcases Db.requestCandidateAbandon_cases h with ⟨_, rfl⟩ | ⟨_, row, hs⟩
    · exact .idle
    · exact .abandonRecorded hs
  | submitState state created =>
    cases h
    exact .stateSubmitted
  | replaceState state expected =>
    simp only [Stmt.run, Db.replaceState] at h
    split at h
    · cases h
    next current hc =>
    split at h
    · next heq =>
      cases h
      subst heq
      exact .stateReplaced hc
    · cases h
      exact .idle
  | createMetadata metadata =>
    simp only [Stmt.run, Db.createMetadata] at h
    split at h
    · cases h
      exact .idle
    · next hnone =>
      cases h
      exact .metadataCreated hnone
  | setMetadata metadata =>
    cases h
    exact .authSet
  | clearPendingCandidateIfNone =>
    cases h
    exact .flagCleared
  | setReleasedIfState now expected =>
    simp only [Stmt.run, Db.setReleasedIfState] at h
    repeat' split at h
    all_goals cases h
    · exact .idle
    · exact .plain (Db.plain_setMetadata fun _ => ⟨rfl, rfl⟩)
    · exact .idle
  | clearReleasedIfState expected =>
    simp only [Stmt.run, Db.clearReleasedIfState] at h
    repeat' split at h
    all_goals cases h
    · exact .idle
    · exact .plain (Db.plain_setMetadata fun _ => ⟨rfl, rfl⟩)
    · exact .idle
  | setPause now =>
    simp only [Stmt.run, Db.setPause] at h
    split at h <;> cases h
    exact .plain (Db.plain_setMetadata fun _ => ⟨rfl, rfl⟩)
  | clearPause =>
    simp only [Stmt.run, Db.clearPause] at h
    split at h <;> cases h
    exact .plain (Db.plain_setMetadata fun _ => ⟨rfl, rfl⟩)
  | submitDeltaProposal record =>
    cases h
    refine .plain ?_
    unfold Db.submitDeltaProposal
    split <;> exact ⟨rfl, rfl, rfl, rfl, rfl, rfl⟩
  | deleteDeltaProposal id =>
    cases h
    exact .plain ⟨rfl, rfl, rfl, rfl, rfl, rfl⟩
  | pruneSupersededDeltas before =>
    cases h
    exact .pruned

/-- A fenced transaction that committed. -/
theorem Tx.run_effect {tx : Tx} {current : Bool} {a : tx.Answer} {db' : Db}
    (h : tx.run current w.db = some (a, db')) :
    Effect pid w (.commit tx)
      { w with db := db', lock := none, ghost := tx.note w.chain w.db w.ghost a } := by
  cases tx with
  | promoteCandidate p =>
    rcases Db.promoteCandidate_cases h with ⟨hr, rfl⟩ | ⟨settled, rfl, hs⟩
    · cases a <;> first | exact .rolledBack | exact absurd rfl (hr _)
    · exact .promoted hs
  | discardCandidate nonce kind snapshot =>
    rcases Db.discardCandidate_cases h with ⟨hr, rfl⟩ | ⟨rfl, row, hs⟩
    · cases a <;> first | exact .rolledBack | exact absurd rfl hr
    · simp only [Tx.note, Db.rowAt_eq_some.mpr ⟨hs.deletes.mem_row, hs.row_nonce⟩, Option.elim_some]
      exact .discarded hs
  | updateCandidateStatus nonce status snapshot =>
    rcases Db.updateCandidateStatus_cases h with ⟨hr, rfl⟩ | ⟨rfl, row, hs⟩
    · cases a <;> first | exact .rolledBack | exact absurd rfl hr
    · simp only [Tx.note, Db.rowAt_eq_some.mpr ⟨hs.rewrites.mem_row, hs.row_nonce⟩, Option.elim_some]
      exact .updated hs
  | createExecutionReservation proposalId fence expiresAt =>
    rcases Db.createExecutionReservation_cases h with ⟨_, rfl⟩ | ⟨record, _, _, _, hs⟩
    · exact .rolledBack
    · exact .reserved hs
  | renewExecutionReservation fence expiresAt phase =>
    rcases Db.renewExecutionReservation_cases h with ⟨_, rfl⟩ | ⟨_, e, ha, _, rfl⟩
    · exact .rolledBack
    · exact .renewed ⟨e, (·.renewTo expiresAt phase), ha, fun _ => ⟨rfl, rfl, rfl, rfl, rfl⟩, rfl⟩ rfl
  | claimExecutionReservation expected claimant expiresAt =>
    rcases Db.claimExecutionReservation_cases h with rfl | ⟨e, ha, rfl⟩
    · exact .rolledBack
    · exact .renewed ⟨e, (·.claimFor claimant expiresAt), ha, fun _ => ⟨rfl, rfl, rfl, rfl, rfl⟩, rfl⟩ rfl
  | admitExecutionCandidate admission =>
    rcases Db.admitExecutionCandidate_cases h with ⟨hr, rfl⟩ | ⟨rfl, hs⟩
    · cases a <;> first | exact .rolledBack | exact absurd rfl hr
    · exact .admitted hs
  | settlePromotedExecution fence now =>
    rcases Db.settlePromotedExecution_cases h with rfl | hs
    · exact .rolledBack
    · exact .settled hs
  | resolveExecution resolution crossed =>
    rcases Db.resolveExecution_cases h with rfl | hs
    · exact .rolledBack
    · exact .resolved hs

theorem LeaseCall.run_effect (l : LeaseCall) : ∃ leases, (l.run w.db w.clock).2 = { w.db with leases := leases } := by
  cases l with
  | tryAcquire name holderId ttl =>
    simp only [LeaseCall.run, Db.tryAcquire]
    split
    · exact ⟨_, rfl⟩
    · split <;> exact ⟨_, rfl⟩
  | renew fence ttl =>
    simp only [LeaseCall.run, Db.renewLease]
    split <;> exact ⟨_, rfl⟩
  | release fence =>
    simp only [LeaseCall.run, Db.releaseLease]
    split
    · split <;> exact ⟨_, rfl⟩
    · exact ⟨_, rfl⟩

/-- An answer that arrived is the statement's, and its effect is there. -/
theorem exec_write_answer {s : Stmt} {a : s.Answer}
    (h : exec pid (.write s) ch w = some (some a, w')) : ∃ db', s.run w.db = some (a, db') ∧
      w' = { w with db := db', ghost := s.note pid w.chain w.db w.ghost a } := by
  unfold exec at h
  split at h
  · cases h
  simp only at h
  split at h
  · cases h
  split at h
  · cases h
  · cases h
  · next b db' hrun _ =>
    split at h
    · cases h
      exact ⟨db', hrun, rfl⟩
    · cases h

/-- The same for a fenced transaction. -/
theorem exec_commit_answer {tx : Tx} {a : tx.Answer}
    (h : exec pid (.commit tx) ch w = some (some a, w')) :
    ∃ current db', w.lock = some (pid, current) ∧ tx.run current w.db = some (a, db') ∧
      w' = { w with db := db', lock := none, ghost := tx.note w.chain w.db w.ghost a } := by
  unfold exec at h
  split at h
  · cases h
  simp only at h
  split at h
  · cases h
  next owner current hlock =>
  split at h
  swap
  · cases h
  next howner =>
  subst howner
  split at h
  · cases h
  · cases h
  · next b db' hrun _ =>
    split at h
    · cases h
      exact ⟨current, db', hlock, hrun, rfl⟩
    · cases h

/-- The answer of a transaction that takes effect under the choice, whether or
not it arrives. -/
def Tx.effect (tx : Tx) (ch : Choice) (w : World) : Option tx.Answer :=
  match ch.fault, w.lock with
  | .refused, _ => none
  | _, none => none
  | _, some (_, current) => (tx.run current w.db).map (·.1)

/-- A transaction takes effect and notes it, or changes no row. -/
theorem exec_commit_cases {tx : Tx} {r : Option tx.Answer}
    (h : exec pid (.commit tx) ch w = some (r, w')) :
    (tx.effect ch w = none ∧ r = none ∧ w'.db = w.db) ∨
    ∃ a current, tx.effect ch w = some a ∧ (∀ b, r = some b → b = a) ∧
      tx.run current w.db = some (a, w'.db) := by
  unfold exec at h
  split at h
  · cases h
  simp only at h
  split at h
  · cases h
  next owner current hlock =>
  split at h
  swap
  · cases h
  unfold Tx.effect
  split at h
  · next hfault =>
    cases h
    exact .inl ⟨by simp [hfault], rfl, rfl⟩
  · next hrun _ =>
    cases h
    refine .inl ⟨?_, rfl, rfl⟩
    cases ch.fault <;> simp [hlock, hrun]
  · next b db' hrun hfault =>
    cases h
    refine .inr ⟨b, current, ?_, fun a ha => ?_, hrun⟩
    · cases hf : ch.fault with
      | refused => exact absurd hf (by simpa using hfault)
      | none | lost => simp [hlock, hrun]
    · split at ha <;> cases ha
      rfl

/-- A node that answered did so at a block of the chain. -/
theorem exec_node_answer {n : NodeCall} {a : n.Answer}
    (h : exec pid (.node n) ch w = some (some a, w')) :
    ch.fault = .none ∧ n.possible w.chain ch = true ∧ a = n.run w.chain ch ∧
      w' = { w with ghost := n.note w.chain ch w.ghost } := by
  unfold exec at h
  split at h
  · cases h
  simp only at h
  split at h
  swap
  · cases h
  next hp =>
  split at h
  · next hf =>
    cases h
    exact ⟨hf, hp, rfl, rfl⟩
  · cases h

/-- Every call of a live process has one of the effects. -/
theorem exec_effect {op : Op} {r : Res op} (h : exec pid op ch w = some (r, w')) :
    pid ∉ w.finished ∧ Effect pid w op w' := by
  unfold exec at h
  split at h
  · cases h
  next hlive =>
  refine ⟨hlive, ?_⟩
  cases op with
  | query q =>
    simp only at h
    split at h <;> cases h
    · exact .read q ch.rows
    · exact .idle
  | write s =>
    simp only at h
    split at h
    · cases h
    split at h
    · cases h; exact .idle
    · cases h; exact .idle
    · next a db' hrun _ => cases h; exact Stmt.run_effect hrun
  | begin fence =>
    simp only at h
    split at h
    · cases h
    · next hlock => cases h; exact .began hlock
  | commit tx =>
    simp only at h
    split at h
    · cases h
    split at h
    swap
    · cases h
    split at h
    · cases h; exact .rolledBack
    · cases h; exact .rolledBack
    · next a db' hrun _ => cases h; exact Tx.run_effect hrun
  | lease l =>
    simp only at h
    split at h
    · cases h; exact .idle
    · cases h
      obtain ⟨leases, heq⟩ := LeaseCall.run_effect (w := w) l
      rw [heq]
      exact .leased
  | node n =>
    simp only at h
    split at h
    · next hp => cases h; exact .asked hp
    · cases h
  | now => cases h; exact .idle
  | flag => cases h; exact .idle
  | returns => cases h; exact .returned

/-! ## The environment -/

/-- The world with the entries of a block on its chain. -/
def World.extend (w : World) (es : List ChainEntry) : World :=
  { w with chain := { w.chain with entries := es ++ w.chain.entries } }

/-- The entries of the block after the tip, newest first. -/
inductive Mined (net : Network) (w : World) : List ChainEntry → Prop where
  | nil : Mined net w []
  | cons {es : List ChainEntry} {m : Move} {e : ChainEntry} (h : Mined net w es)
      (he : (w.extend es).entry net m = some e) : Mined net w (e :: es)

theorem include_mined {net : Network} {w₁ : World} {moves : List Move} {es : List ChainEntry}
    (hes : Mined net w es) (h : (w.extend es).include net moves = some w₁) :
    ∃ es', Mined net w es' ∧ w₁ = w.extend es' := by
  induction moves generalizing es with
  | nil => cases h; exact ⟨es, hes, rfl⟩
  | cons m moves ih =>
    unfold World.include at h
    split at h
    · cases h
    · next e he => exact ih (hes.cons he) h

/-- What the environment can do. -/
inductive ActEffect (net : Network) (w : World) : World → Prop where
  | tick (seconds : Nat) : ActEffect net w { w with clock := w.clock + seconds }
  | crash (pid : Nat) : ActEffect net w (w.finish pid)
  | mine {es : List ChainEntry} (h : Mined net w es) :
      ActEffect net w { w with chain := ⟨w.chain.first, es ++ w.chain.entries, w.chain.tip + 1⟩ }

theorem act_effect {net : Network} {a : Act} (h : act net a w = some w') : ActEffect net w w' := by
  cases a with
  | tick seconds => cases h; exact .tick seconds
  | crash pid => cases h; exact .crash pid
  | mine moves =>
    obtain ⟨w₁, hw₁, rfl⟩ := Option.map_eq_some_iff.mp h
    obtain ⟨es, hes, rfl⟩ := include_mined .nil hw₁
    exact .mine hes

/-- The environment touches no row. -/
theorem ActEffect.db {net : Network} (h : ActEffect net w w') : w'.db = w.db := by
  cases h <;> rfl

end Guardian
