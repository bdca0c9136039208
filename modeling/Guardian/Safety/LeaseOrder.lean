import Guardian.Effects
import Guardian.Lib.History
import Guardian.System

/- Leases and the order of the writes they fence. A lease is stolen without the
   account lock, so a fence that was current when a write's transaction began may
   not be when it commits. What orders the writes is the lock: the fence is read
   after it is taken, and the lock is held until the commit, so of two writes the
   later one read its fence after the earlier one committed, and a lease's token
   never goes back.

   1. `Db.LeaseLater`: what every lease call leaves of a lease; from it, that a
      token of a lease has one holder for good.
   2. `FenceLog.Ordered`: the invariant of the fences of committed writes. -/
namespace Guardian

open Interleaving

/-! ## Leases over time -/

/-- A later row of a lease: the token did not go back, and is the same
holder's where it is the same. -/
def LeaseRow.Later (r r' : LeaseRow) : Prop :=
  r.fenceToken ≤ r'.fenceToken ∧ (r.fenceToken = r'.fenceToken → r.holderId = r'.holderId)

theorem LeaseRow.Later.refl (r : LeaseRow) : r.Later r := ⟨le_rfl, fun _ => rfl⟩

theorem LeaseRow.Later.trans {a b c : LeaseRow} (h : a.Later b) (h' : b.Later c) : a.Later c := by
  refine ⟨h.1.trans h'.1, fun heq => ?_⟩
  have hab : a.fenceToken = b.fenceToken := le_antisymm h.1 (heq ▸ h'.1)
  exact (h.2 hab).trans (h'.2 (hab ▸ heq))

/-- Every lease is still there, at a later row. -/
def Db.LeasesLater (db db' : Db) : Prop :=
  ∀ name r, db.leases name = some r → ∃ r', db'.leases name = some r' ∧ r.Later r'

theorem Db.LeasesLater.of_eq {db db' : Db} (h : db'.leases = db.leases) : db.LeasesLater db' :=
  fun _ r hr => ⟨r, h ▸ hr, .refl r⟩

/-- Setting one lease to a later row. -/
theorem Db.leasesLater_setLease {db : Db} {name : String} {row : LeaseRow}
    (h : ∀ r, db.leases name = some r → r.Later row) : db.LeasesLater (db.setLease name row) := by
  intro other r hr
  by_cases heq : other = name
  · subst heq
    exact ⟨row, by simp [setLease], h r hr⟩
  · exact ⟨r, by simp [setLease, Function.update_of_ne heq, hr], .refl r⟩

theorem Db.leaseFenceIsCurrent_iff {db : Db} {fence : LeaseFence} {now : Time} :
    db.leaseFenceIsCurrent fence now = true ↔ ∃ r, db.leases fence.leaseName = some r ∧
      r.holderId = fence.holderId ∧ r.fenceToken = fence.fenceToken ∧ now < r.expiresAt := by
  simp [leaseFenceIsCurrent, Option.any_eq_true, and_assoc]

theorem LeaseCall.leasesLater (l : LeaseCall) (db : Db) (now : Time) :
    db.LeasesLater (l.run db now).2 := by
  cases l with
  | tryAcquire name holderId ttl =>
    simp only [LeaseCall.run, Db.tryAcquire]
    split
    · next hnone => exact Db.leasesLater_setLease fun r hr => by rw [hnone] at hr; cases hr
    · next l hl =>
      split
      swap
      · exact .of_eq rfl
      -- the same holder keeps its token, another one gets the next
      refine Db.leasesLater_setLease fun r hr => ?_
      rw [hl] at hr
      cases hr
      by_cases hsame : l.holderId = holderId
      · exact ⟨by simp [hsame], fun _ => hsame⟩
      · refine ⟨by simp [hsame], fun heq => ?_⟩
        simp [hsame] at heq
  | renew fence ttl =>
    simp only [LeaseCall.run, Db.renewLease]
    split
    swap
    · exact .of_eq rfl
    · next hcurrent =>
      obtain ⟨l, hl, hholder, htoken, _⟩ := Db.leaseFenceIsCurrent_iff.mp hcurrent
      refine Db.leasesLater_setLease fun r hr => ?_
      rw [hl] at hr
      cases hr
      exact ⟨htoken.le, fun _ => hholder⟩
  | release fence =>
    simp only [LeaseCall.run, Db.releaseLease]
    split
    · next l hl =>
      split
      swap
      · exact .of_eq rfl
      refine Db.leasesLater_setLease fun r hr => ?_
      rw [hl] at hr
      cases hr
      exact .refl _
    · exact .of_eq rfl

/-! ## Nothing else touches a lease -/

namespace Db
variable {db db' : Db}

theorem leases_clearPendingFlagIfNone : db.clearPendingFlagIfNone.leases = db.leases := by
  unfold clearPendingFlagIfNone
  split <;> rfl

theorem leases_supersedeParked {nonce : Nonce} {now : Time} {archive : Bool} :
    (db.supersedeParked nonce now archive).leases = db.leases :=
  (supersedeParked_rest db nonce now archive).1.leases

theorem leases_insertDelta {delta : DeltaObject} (h : db.insertDelta delta = some db') :
    db'.leases = db.leases := by
  unfold insertDelta at h
  split at h
  · cases h
  · cases h; rfl

theorem leases_settle {r : ExecutionRecord} {terminal : ExecutionTerminal} {now : Time}
    (h : db.settle r terminal now = some db') : db'.leases = db.leases := by
  unfold settle at h
  split at h
  · cases h
  · cases h; rfl

theorem leases_commitPromotedExecution {nonce : Nonce} {promoted : Commitment} {now : Time}
    {settled : Bool} (h : db.commitPromotedExecution nonce promoted now = some (settled, db')) :
    db'.leases = db.leases := by
  obtain ⟨rfl, _⟩ | ⟨_, _, _, rfl⟩ := commitPromotedExecution_cases h <;> rfl

theorem leases_promoteCandidate {current : Bool} {p : CandidatePromotion} {r : PromoteWrite}
    (h : db.promoteCandidate current p = some (r, db')) : db'.leases = db.leases := by
  unfold promoteCandidate at h
  split at h
  · cases h
  split at h
  swap
  · cases h; rfl
  split at h
  · cases h; rfl
  next db₁ hw =>
  have hrest := (writeCanonical_cases hw).2
  split at h
  · cases h; rfl
  split at h
  swap
  · cases h; rfl
  simp only at h
  split at h
  · cases h
  next hcommit =>
  cases h
  rw [leases_clearPendingFlagIfNone, leases_commitPromotedExecution hcommit]
  cases p.newAuth <;> exact hrest.leases

theorem leases_resolveExecution {current crossed : Bool} {resolution : ExecutionResolution}
    {r : ResolveWrite} (h : db.resolveExecution current resolution crossed = some (r, db')) :
    db'.leases = db.leases := by
  unfold resolveExecution at h
  split at h
  · cases h
  split at h
  · cases h; rfl
  split at h
  · cases h; rfl
  split at h
  · cases h; rfl
  split at h
  swap
  · cases h; rfl
  split at h
  · cases h; rfl
  obtain ⟨db₁, hsettle, heq⟩ := Option.map_eq_some_iff.mp h
  cases heq
  rw [leases_settle hsettle]
  split
  · rfl
  · rw [leases_clearPendingFlagIfNone]
    split <;> rfl

end Db

theorem Stmt.run_leases {s : Stmt} {a : s.Answer} {db db' : Db} (h : s.run db = some (a, db')) :
    db'.leases = db.leases := by
  cases s with
  | submitCandidate delta now policy =>
    simp only [Stmt.run, Db.submitCandidate] at h
    repeat' split at h
    all_goals cases h
    · rfl
    · rfl
    · rfl
    · exact Db.leases_supersedeParked
    · next hinsert => exact (Db.leases_insertDelta hinsert).trans Db.leases_supersedeParked
  | requestCandidateAbandon nonce new now =>
    simp only [Stmt.run, Db.requestCandidateAbandon] at h
    repeat' split at h
    all_goals cases h
    all_goals rfl
  | submitState | submitDeltaProposal | deleteDeltaProposal | pruneSupersededDeltas =>
    cases h
    first
      | rfl
      | unfold Db.submitDeltaProposal; split <;> rfl
  | replaceState state expected =>
    simp only [Stmt.run, Db.replaceState] at h
    repeat' split at h
    all_goals cases h
    all_goals rfl
  | createMetadata metadata =>
    simp only [Stmt.run, Db.createMetadata] at h
    split at h <;> cases h <;> rfl
  | setMetadata metadata =>
    cases h
    unfold Db.setMetadataRow
    split <;> rfl
  | clearPendingCandidateIfNone =>
    cases h
    exact Db.leases_clearPendingFlagIfNone
  | setReleasedIfState | clearReleasedIfState =>
    simp only [Stmt.run, Db.setReleasedIfState, Db.clearReleasedIfState] at h
    repeat' split at h
    all_goals cases h
    all_goals rfl
  | setPause | clearPause =>
    simp only [Stmt.run, Db.setPause, Db.clearPause] at h
    split at h
    · cases h
    · cases h; rfl

theorem Tx.run_leases {tx : Tx} {current : Bool} {a : tx.Answer} {db db' : Db}
    (h : tx.run current db = some (a, db')) : db'.leases = db.leases := by
  cases tx with
  | promoteCandidate p => exact Db.leases_promoteCandidate h
  | resolveExecution resolution crossed => exact Db.leases_resolveExecution h
  | discardCandidate nonce kind snapshot =>
    simp only [Tx.run, Db.discardCandidate] at h
    repeat' split at h
    all_goals cases h
    all_goals first | rfl | exact Db.leases_clearPendingFlagIfNone
  | updateCandidateStatus nonce status snapshot =>
    simp only [Tx.run, Db.updateCandidateStatus] at h
    repeat' split at h
    all_goals cases h
    all_goals rfl
  | createExecutionReservation proposalId fence expiresAt =>
    simp only [Tx.run, Db.createExecutionReservation] at h
    repeat' split at h
    all_goals cases h
    all_goals rfl
  | renewExecutionReservation fence expiresAt phase =>
    simp only [Tx.run, Db.renewExecutionReservation] at h
    repeat' split at h
    all_goals cases h
    all_goals rfl
  | claimExecutionReservation expected claimant expiresAt =>
    simp only [Tx.run, Db.claimExecutionReservation] at h
    repeat' split at h
    all_goals cases h
    all_goals rfl
  | admitExecutionCandidate a =>
    simp only [Tx.run, Db.admitExecutionCandidate] at h
    repeat' split at h
    all_goals cases h
    all_goals first
      | rfl
      | exact Db.leases_supersedeParked
      | next hinsert _ => exact (Db.leases_insertDelta hinsert).trans Db.leases_supersedeParked
  | settlePromotedExecution fence now =>
    simp only [Tx.run, Db.settlePromotedExecution] at h
    repeat' split at h
    all_goals first
      | cases h; rfl
      | cases h
      | obtain ⟨_, hsettle, heq⟩ := Option.map_eq_some_iff.mp h
        cases heq
        exact Db.leases_settle hsettle

/-- What a step leaves of the leases. -/
theorem exec_leasesLater {pid : Nat} {op : Op} {ch : Choice} {w w' : World} {r : Res op}
    (h : exec pid op ch w = some (r, w')) : w.db.LeasesLater w'.db := by
  unfold exec at h
  split at h
  · cases h
  cases op with
  | query q => simp only at h; split at h <;> cases h <;> exact .of_eq rfl
  | write s =>
    simp only at h
    split at h
    · cases h
    split at h
    · cases h; exact .of_eq rfl
    · cases h; exact .of_eq rfl
    · next hrun _ => cases h; exact .of_eq (Stmt.run_leases hrun)
  | begin fence => simp only at h; split at h <;> cases h; exact .of_eq rfl
  | commit tx =>
    simp only at h
    split at h
    · cases h
    split at h
    swap
    · cases h
    split at h
    · cases h; exact .of_eq rfl
    · cases h; exact .of_eq rfl
    · next hrun _ => cases h; exact .of_eq (Tx.run_leases hrun)
  | lease l =>
    simp only at h
    split at h
    · cases h; exact .of_eq rfl
    · cases h; exact l.leasesLater w.db w.clock
  | node n =>
    simp only at h
    split at h
    · cases h; exact .of_eq rfl
    · cases h
  | now | flag | returns => cases h; exact .of_eq rfl

/-! ## The fences of committed writes -/

/-- The fence of the transaction that began last, and those of the
canonicalization writes that committed, newest first. -/
structure FenceLog where
  opened : Option LeaseFence
  writes : List LeaseFence

def FenceLog.empty : FenceLog := ⟨none, []⟩

/-- A canonicalization write that was applied. -/
def Tx.canonicalizes : (tx : Tx) → tx.Answer → Bool
  | .promoteCandidate _, .applied _ => true
  | .discardCandidate .., .applied => true
  | .updateCandidateStatus .., .applied => true
  | _, _ => false

/-- What the commit of a transaction notes; an answer that is lost was applied
all the same. -/
def FenceLog.noteCommit (tx : Tx) (ch : Choice) (w : World) (log : FenceLog) : FenceLog :=
  match ch.fault, w.lock with
  | .refused, _ => log
  | _, none => log
  | _, some (_, current) =>
    match tx.run current w.db with
    | some (a, _) =>
      if tx.canonicalizes a then { log with writes := log.opened.toList ++ log.writes } else log
    | none => log

def FenceLog.note : Note Op World Choice FenceLog := fun _ op ch w log =>
  match op with
  | .begin fence => { log with opened := some fence }
  | .commit tx => log.noteCommit tx ch w
  | _ => log

/-- Of two writes under one lease the later one has no smaller token. -/
def FenceLog.InOrder (log : FenceLog) : Prop :=
  log.writes.Pairwise (fun later earlier =>
    later.leaseName = earlier.leaseName → earlier.fenceToken ≤ later.fenceToken)

/-- The lease has reached the fence's token. -/
def LeaseFence.Reached (f : LeaseFence) (db : Db) : Prop :=
  ∃ r, db.leases f.leaseName = some r ∧ f.fenceToken ≤ r.fenceToken

/-- The invariant: every lease has reached the tokens it fenced writes with, and
a transaction under way whose lease was current is fenced behind them all. -/
structure FenceLog.Ordered (w : World) (log : FenceLog) : Prop where
  inOrder : log.InOrder
  reached : ∀ f ∈ log.writes, f.Reached w.db
  opened : ∀ f pid, log.opened = some f → w.lock = some (pid, true) → f.Reached w.db ∧
    ∀ g ∈ log.writes, f.leaseName = g.leaseName → g.fenceToken ≤ f.fenceToken

theorem LeaseFence.Reached.later {f : LeaseFence} {db db' : Db} (h : f.Reached db)
    (hle : db.LeasesLater db') : f.Reached db' := by
  obtain ⟨r, hr, ht⟩ := h
  obtain ⟨r', hr', hlater⟩ := hle _ r hr
  exact ⟨r', hr', ht.trans hlater.1⟩

/-- Only a current lease lets a canonicalization write through. -/
theorem Tx.current_of_canonicalizes {tx : Tx} {current : Bool} {a : tx.Answer} {db db' : Db}
    (h : tx.run current db = some (a, db')) (ha : tx.canonicalizes a = true) : current = true := by
  by_contra hstale
  rw [Bool.not_eq_true] at hstale
  subst hstale
  cases tx with
  | promoteCandidate p =>
    simp only [Tx.run, Db.promoteCandidate, Bool.false_eq_true, if_false] at h
    split at h <;> cases h
    cases ha
  | discardCandidate nonce kind snapshot =>
    simp only [Tx.run, Db.discardCandidate, Bool.false_eq_true, if_false] at h
    split at h <;> cases h
    cases ha
  | updateCandidateStatus nonce status snapshot =>
    simp only [Tx.run, Db.updateCandidateStatus, Bool.false_eq_true, if_false] at h
    split at h <;> cases h
    cases ha
  | _ => cases ha

namespace FenceLog.Ordered
variable {w w' : World} {log : FenceLog}

/-- A step that opens no transaction keeps the order. -/
theorem kept (h : Ordered w log) (hle : w.db.LeasesLater w'.db)
    (hlock : ∀ pid, w'.lock = some (pid, true) → w.lock = some (pid, true)) : Ordered w' log where
  inOrder := h.inOrder
  reached := fun f hf => (h.reached f hf).later hle
  opened := fun f pid hf hl =>
    ⟨((h.opened f pid hf (hlock pid hl)).1).later hle, (h.opened f pid hf (hlock pid hl)).2⟩

/-- A transaction whose lease is current is fenced behind every write. -/
theorem begins (h : Ordered w log) {pid : Nat} {fence : LeaseFence} :
    Ordered { w with lock := some (pid, w.db.leaseFenceIsCurrent fence w.clock) }
      { log with opened := some fence } where
  inOrder := h.inOrder
  reached := h.reached
  opened := by
    intro f q hf hl
    cases hf
    obtain ⟨_, hcurrent⟩ := Prod.mk.inj (Option.some.inj hl)
    obtain ⟨r, hr, _, htoken, _⟩ := Db.leaseFenceIsCurrent_iff.mp hcurrent
    refine ⟨⟨r, hr, htoken.ge⟩, fun g hg hname => ?_⟩
    obtain ⟨r', hr', ht⟩ := h.reached g hg
    rw [← hname, hr] at hr'
    cases hr'
    exact ht.trans htoken.le

/-- A committed write is the newest, and its token no smaller than any. -/
theorem commits (h : Ordered w log) {pid : Nat} (hl : w.lock = some (pid, true)) :
    Ordered w { log with writes := log.opened.toList ++ log.writes } := by
  cases hopened : log.opened with
  | none => exact ⟨h.inOrder, h.reached, fun f q hf => by cases hf⟩
  | some f =>
    obtain ⟨hreached, hbehind⟩ := h.opened f pid hopened hl
    refine ⟨List.pairwise_cons.mpr ⟨hbehind, h.inOrder⟩, ?_, ?_⟩
    · intro g hg
      rcases List.mem_cons.mp hg with rfl | hg
      · exact hreached
      · exact h.reached g hg
    · intro g q hg _
      cases hg
      refine ⟨hreached, fun g hg hname => ?_⟩
      rcases List.mem_cons.mp hg with rfl | hg
      · exact le_rfl
      · exact hbehind g hg hname

theorem noteCommit (h : Ordered w log) (tx : Tx) (ch : Choice) :
    Ordered w (log.noteCommit tx ch w) := by
  unfold FenceLog.noteCommit
  split
  · exact h
  · exact h
  · next pid current hl _ =>
    split
    swap
    · exact h
    · next a db' hrun =>
      split
      swap
      · exact h
      · next hwrites =>
        rw [Tx.current_of_canonicalizes hrun hwrites] at hl
        exact h.commits hl

theorem of_exec {pid : Nat} {op : Op} {ch : Choice} {r : Res op}
    (hx : exec pid op ch w = some (r, w')) (h : Ordered w log) :
    Ordered w' (FenceLog.note pid op ch w log) := by
  have hle := exec_leasesLater hx
  have heff := (exec_effect hx).2
  -- besides a transaction's own calls, the lock is only given up
  have hlock : (∀ fence, op ≠ .begin fence) → ∀ q, w'.lock = some (q, true) →
      w.lock = some (q, true) := by
    intro hop q hq
    cases heff with
    | began => exact absurd rfl (hop _)
    | returned => exact (Option.filter_eq_some_iff.mp hq).1
    | _ => first | exact hq | cases hq
  cases op with
  | begin fence =>
    cases heff with
    | idle =>
      unfold exec at hx
      split at hx
      · cases hx
      simp only at hx
      split at hx
      · cases hx
      · next hnone =>
        obtain ⟨_, heq⟩ := Prod.mk.inj (Option.some.inj hx)
        rw [← heq] at hnone
        cases hnone
    | began => exact h.begins
  | commit tx => exact (h.noteCommit tx ch).kept hle (hlock nofun)
  | _ => exact h.kept hle (hlock nofun)

theorem of_act {net : Network} {a : Act} (hw : act net a w = some w') (h : Ordered w log) :
    Ordered w' log := by
  have heff := act_effect hw
  refine h.kept (.of_eq (congrArg _ heff.db)) fun q hq => ?_
  cases heff with
  | tick | mine => exact hq
  | crash => exact (Option.filter_eq_some_iff.mp hq).1

theorem of_recorded {net : Network} {cfg : Config} {G : RunGuard} {w₀ : World} {c : SystemConf}
    (h : Recorded (machine net) (body net cfg) G FenceLog.note w₀ .empty c log) :
    Ordered c.world log := by
  have h0 : Ordered w₀ .empty := ⟨.nil, nofun, nofun⟩
  exact Recorded.induct (K := fun _ _ _ => True) (fun _ _ => trivial) (I := Ordered) h0
    (fun _ _ hx hi => hi.of_exec hx) (fun _ hw hi => hi.of_act hw) h

end FenceLog.Ordered

/-- In every run a token of a lease has one holder for good, and the
canonicalization writes that commit follow the tokens of their lease. -/
theorem fenced_writes_follow_lease_order (net : Network) (cfg : Config) (G : RunGuard) (w₀ : World) :
    (∀ c c' events, Reachable net cfg G w₀ c →
      runEvents (machine net) (body net cfg) G c events = some c' → ∀ name r r',
      c.world.db.leases name = some r → c'.world.db.leases name = some r' →
      r.fenceToken = r'.fenceToken → r.holderId = r'.holderId) ∧
    ∀ c log, Recorded (machine net) (body net cfg) G FenceLog.note w₀ .empty c log →
      log.InOrder := by
  refine ⟨fun c c' events hr hrun name r r' hl hl' htoken => ?_, fun c log h =>
    (FenceLog.Ordered.of_recorded h).inOrder⟩
  have hlater : ∃ r₁, c'.world.db.leases name = some r₁ ∧ r.Later r₁ := by
    refine Reach.along (P := fun w => ∃ r₁, w.db.leases name = some r₁ ∧ r.Later r₁)
      (fun _ _ _ hx hP => ?_) (fun _ hw hP => ?_) hr ⟨r, hl, .refl r⟩ hrun
    · obtain ⟨r₁, hr₁, hlater⟩ := hP
      obtain ⟨r₂, hr₂, hlater'⟩ := exec_leasesLater hx name r₁ hr₁
      exact ⟨r₂, hr₂, hlater.trans hlater'⟩
    · rw [(act_effect hw).db]
      exact hP
  obtain ⟨r₁, hr₁, _, hholder⟩ := hlater
  rw [hl'] at hr₁
  cases hr₁
  exact hholder htoken

/-- A pass writes under one holder's lease, and after it is stolen another one
under the next token. -/
theorem fenced_writes_follow_lease_order_stolen :
    ∃ c log, Recorded (machine (.letters 0)) (body (.letters 0) Demo.config) .any FenceLog.note
        (Demo.world 0) .empty c log ∧
      log.writes = [Demo.fence "b" 1, Demo.fence "a" 0] ∧ log.InOrder := by
  have hrun : (runRecorded (machine (.letters 0)) (body (.letters 0) Demo.config) .any FenceLog.note
      (.start (Demo.world 0)) .empty (Demo.pushed ++ .env (.tick 15) :: Demo.acquires 2 "a" ++
        .spawn 3 (.fullPass (Demo.fence "a" 0)) :: Demo.calls 3 11 1 ++ .env (.tick 31) ::
        Demo.acquires 4 "b" ++ .spawn 5 (.fullPass (Demo.fence "b" 1)) :: Demo.calls 5 11 1)).any
      (fun x => decide (x.2.writes = [Demo.fence "b" 1, Demo.fence "a" 0])) = true := by
    decide +kernel
  obtain ⟨⟨c, log⟩, hc, htest⟩ := (Option.any_eq_true ..).mp hrun
  have hrec := Recorded.init.runRecorded hc
  exact ⟨c, log, hrec, of_decide_eq_true htest,
    (fenced_writes_follow_lease_order _ Demo.config .any (Demo.world 0)).2 c log hrec⟩

end Guardian
