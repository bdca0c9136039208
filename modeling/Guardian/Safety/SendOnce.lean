import Guardian.Lib.History
import Guardian.Lib.Rely
import Guardian.Safety.Committed
import Guardian.Safety.Outcome

/- Who sends an execution's transaction, and when.

   1. `SendLog` records who reserved an attempt, whose claim to send renewed its
      reservation, and who handed its transaction to a node. `sending` is what
      the processes rely on each other for: an attempt is reserved by one
      process, under a holder id no other process uses, so a claim that finds
      the reservation under that id is the claim of its own attempt, and the
      worker sends once after it.
   2. A transaction that was sent and can still be included belongs to the
      active attempt: one recorded as failed is dead (`Outcome`), and one
      recorded as committed has its commitment on chain (`Committed`).

   The second part needs what those modules need: the base of every admitted
   transaction on chain at the block it executed against, and stored
   commitments on chain. Without the first two transactions can be under way:
   `two_transactions_sendable`. -/
namespace Guardian

open Interleaving Service

/-! ## What is recorded -/

/-- What a process does about sending the transaction of an attempt. -/
inductive SendEvent where
  /-- It reserved the attempt. -/
  | reserved (pid : Nat) (key : String × Nat)
  /-- Its claim to send renewed the attempt's reservation, held under `holder`. -/
  | claimed (pid : Nat) (key : String × Nat) (holder : String)
  /-- It handed the transaction to a node, `ready` if evidence and candidate
  were committed. -/
  | handed (pid : Nat) (key : String × Nat) (ready : Bool)
  deriving DecidableEq

def SendEvent.pid : SendEvent → Nat
  | .reserved pid _ | .claimed pid _ _ | .handed pid _ _ => pid

/-- The attempt's evidence is recorded and its candidate was admitted. -/
def World.ready (w : World) (k : String × Nat) (evidence : SubmissionEvidence) : Bool :=
  w.db.executions.any (fun e => e.key == k && e.evidence == some evidence) &&
    w.ghost.executionRows.any (·.1 == k)

/-- Newest first. -/
abbrev SendLog := List SendEvent

/-- What an executed call notes; a transaction whose answer is lost took effect
all the same. -/
def SendLog.note : Note Op World Choice SendLog := fun pid op ch w log =>
  match op with
  | .commit (.createExecutionReservation proposalId fence expiresAt) =>
    match Tx.effect (.createExecutionReservation proposalId fence expiresAt) ch w with
    | some (.created attempt) => .reserved pid (proposalId, attempt) :: log
    | _ => log
  | .commit (.renewExecutionReservation fence expiresAt .sent) =>
    match Tx.effect (.renewExecutionReservation fence expiresAt .sent) ch w,
        w.db.activeExecution with
    | some .applied, some e => .claimed pid e.key e.reservation.fence.holderId :: log
    | _, _ => log
  | .node (.submitTransaction proposalId attempt evidence) =>
    .handed pid (proposalId, attempt) (w.ready (proposalId, attempt) evidence) :: log
  | _ => log

/-- Holder ids are told apart: `owner` is the process whose request generated an
id, and no other process acquires the execution lease under it. The ids of
reconcilers have no owner. -/
def holderRuns (owner : String → Option Nat) : RunGuard where
  spawn := fun req _ =>
    match req with
    | .execute params => (owner params.holderId).isSome
    | .reconcileExecutions holderId _ _ => (owner holderId).isNone
    | _ => true
  call := fun pid op _ _ =>
    match op with
    | .lease (.tryAcquire name holderId _) =>
      name != executionLease || (owner holderId).all (· == pid)
    | _ => true
  act := fun _ _ => true

/-- The base of an admitted transaction is on chain at its reference block. -/
def Op.grounded (w : World) : Op → Bool
  | .commit (.admitExecutionCandidate a) => w.grounded a.evidence
  | _ => true

/-- Runs in which what is admitted is grounded and what is stored is on chain. -/
def groundedRuns : RunGuard where
  spawn := fun _ _ => true
  call := fun pid op ch w => op.grounded w && storesOnChain.call pid op ch w
  act := fun _ _ => true

/-- Every transaction is handed over once, after its evidence and candidate were
committed and after a claim to send of the same process, at which the
reservation was under its own id. -/
def SendLog.Proper (owner : String → Option Nat) (log : SendLog) : Prop :=
  ∀ newer older pid k ready, log = newer ++ .handed pid k ready :: older → ready = true ∧
    (∃ holder, .claimed pid k holder ∈ older ∧ owner holder = some pid) ∧
    ∀ q r, .handed q k r ∉ older

/-! ## What the processes rely on -/

/-- What holds of attempts and what was recorded of them. -/
structure SendLogInv (owner : String → Option Nat) (w : World) (log : SendLog) : Prop where
  attempts : w.db.AttemptInv
  known : ∀ {q k}, .reserved q k ∈ log → ∃ e ∈ w.db.executions, e.key = k
  reserver : ∀ {q q' k}, .reserved q k ∈ log → .reserved q' k ∈ log → q = q'
  one : ∀ {q k k'}, .reserved q k ∈ log → .reserved q k' ∈ log → k = k'
  holder : ∀ {e q}, e ∈ w.db.executions → owner e.reservation.fence.holderId = some q →
    .reserved q e.key ∈ log
  handed : ∀ {q k r}, .handed q k r ∈ log → .reserved q k ∈ log
  proper : log.Proper owner

/-- What a process makes sure of before it reserves, takes a reservation over,
or sends. -/
def LogOk (owner : String → Option Nat) (pid : Nat) (log : SendLog) : Op → Prop
  | .commit (.createExecutionReservation _ fence _) =>
    (∀ k, .reserved pid k ∉ log) ∧ owner fence.holderId = some pid
  | .commit (.claimExecutionReservation _ claimant _) => owner claimant.holderId = none
  | .node (.submitTransaction proposalId attempt _) =>
    .reserved pid (proposalId, attempt) ∈ log ∧
    (∃ holder, .claimed pid (proposalId, attempt) holder ∈ log ∧ owner holder = some pid) ∧
    ∀ k r, .handed pid k r ∉ log
  | _ => True

/-- Others record what they do under their own number. -/
def sending (owner : String → Option Nat) : Rely Op (World × SendLog) where
  inv := fun x => SendLogInv owner x.1 x.2
  rely := fun pid x x' => ∃ es, x'.2 = es ++ x.2 ∧ ∀ e ∈ es, e.pid ≠ pid
  ok := fun pid op x => LogOk owner pid x.2 op
  refl := fun _ => ⟨[], rfl, nofun⟩
  trans := by
    rintro pid a b c ⟨es, hes, hpid⟩ ⟨es', hes', hpid'⟩
    refine ⟨es' ++ es, by rw [hes', hes, List.append_assoc], fun e he => ?_⟩
    rcases List.mem_append.mp he with he | he
    · exact hpid' e he
    · exact hpid e he

section Calls
variable {owner : String → Option Nat} {pid : Nat} {op : Op} {ch : Choice} {w w' : World}
  {log : SendLog} {r : Res op}

/-- What a call can note. -/
inductive Noted (pid : Nat) (ch : Choice) (w : World) (log : SendLog) : Op → SendLog → Prop where
  | nothing {op : Op} (h : ∀ p f t n, op = .commit (.createExecutionReservation p f t) →
      Tx.effect (.createExecutionReservation p f t) ch w ≠ some (.created n)) : Noted pid ch w log op log
  | reserved {proposalId : String} {fence : LeaseFence} {expiresAt : Time} {attempt : Nat}
      (h : Tx.effect (.createExecutionReservation proposalId fence expiresAt) ch w =
        some (.created attempt)) :
      Noted pid ch w log (.commit (.createExecutionReservation proposalId fence expiresAt))
        (.reserved pid (proposalId, attempt) :: log)
  | claimed {fence : LeaseFence} {expiresAt : Time} {e : ExecutionRecord}
      (h : w.db.activeExecution = some e) :
      Noted pid ch w log (.commit (.renewExecutionReservation fence expiresAt .sent))
        (.claimed pid e.key e.reservation.fence.holderId :: log)
  | handed {proposalId : String} {attempt : Nat} {evidence : SubmissionEvidence} :
      Noted pid ch w log (.node (.submitTransaction proposalId attempt evidence))
        (.handed pid (proposalId, attempt) (w.ready (proposalId, attempt) evidence) :: log)

theorem SendLog.noted (pid : Nat) (op : Op) (ch : Choice) (w : World) (log : SendLog) :
    Noted pid ch w log op (SendLog.note pid op ch w log) := by
  unfold SendLog.note
  split
  · split
    · next h => exact .reserved h
    · next hnot =>
      refine .nothing fun p f t n heq h => ?_
      cases heq
      exact hnot n h
  · split
    · next h => exact .claimed h
    · exact .nothing nofun
  · exact .handed
  · next hnot _ _ => exact .nothing fun p f t n heq => absurd heq (hnot p f t)

/-- What a call notes is its own. -/
theorem Noted.appends {log' : SendLog} (h : Noted pid ch w log op log') :
    ∃ es, log' = es ++ log ∧ ∀ e ∈ es, e.pid = pid := by
  cases h with
  | nothing => exact ⟨[], rfl, nofun⟩
  | reserved | claimed | handed => exact ⟨[_], rfl, by simp [SendEvent.pid]⟩

/-- Where an attempt after a call comes from, and under whose id it is. -/
theorem exec_holder (hi : w.db.AttemptInv) (hx : exec pid op ch w = some (r, w'))
    {e' : ExecutionRecord} (he' : e' ∈ w'.db.executions) :
    (∃ e ∈ w.db.executions, e.key = e'.key ∧
      e.reservation.fence.holderId = e'.reservation.fence.holderId) ∨
    (∃ p f t n, op = .commit (.createExecutionReservation p f t) ∧
      Tx.effect (.createExecutionReservation p f t) ch w = some (.created n) ∧ e'.key = (p, n) ∧
      e'.reservation.fence = f ∧ ∀ e ∈ w.db.executions, e.key ≠ e'.key) ∨
    ∃ expected claimant t, op = .commit (.claimExecutionReservation expected claimant t) ∧
      e'.reservation.fence.holderId = claimant.holderId ∧ ∃ e ∈ w.db.executions, e.key = e'.key := by
  have hold : e' ∈ w.db.executions → ∃ e ∈ w.db.executions, e.key = e'.key ∧
      e.reservation.fence.holderId = e'.reservation.fence.holderId := fun h => ⟨e', h, rfl, rfl⟩
  -- an update of the active attempt is one of it or leaves the attempt alone
  have hupdate : ∀ {e : ExecutionRecord} {f : ExecutionRecord → ExecutionRecord},
      w.db.activeExecution = some e →
      e' ∈ (w.db.updateExecution e.reservation.proposalId e.reservation.attempt f).executions →
      (e ∈ w.db.executions ∧ e' = f e) ∨ e' ∈ w.db.executions := by
    intro e f ha hmem
    have he := (Db.activeExecution_eq_some ha).1
    exact ((hi.mem_update he).mp hmem).imp (fun heq => ⟨he, heq⟩) (·.1)
  -- the other calls leave an attempt under its id
  have hrest : (∀ p f t, op ≠ .commit (.createExecutionReservation p f t)) →
      (∀ tx, op = .commit tx → tx.renews ≠ true) → ∃ e ∈ w.db.executions, e.key = e'.key ∧
        e.reservation.fence.holderId = e'.reservation.fence.holderId := by
    intro hcreate hrenews
    cases (exec_effect hx).2.attempts hi with
    | same heq => exact hold (heq ▸ he')
    | reserved _ hcall =>
      obtain ⟨p, f, t, hcall⟩ := hcall
      exact absurd hcall (hcreate p f t)
    | touched he _ ht heq =>
      rw [heq, hi.mem_update he] at he'
      rcases he' with rfl | ⟨he', _⟩
      · have hkey := ht.key_eq
        cases ht with
        | renewed _ hcall hr => exact absurd hr (hrenews _ hcall)
        | _ => exact ⟨_, he, hkey.symm, rfl⟩
      · exact hold he'
  by_cases hcommit : ∃ tx, op = .commit tx
  · obtain ⟨tx, rfl⟩ := hcommit
    rcases exec_commit_cases hx with ⟨_, _, hdb⟩ | ⟨a, current, heffect, _, hrun⟩
    · exact .inl (hold (hdb ▸ he'))
    cases tx with
    | createExecutionReservation p f t =>
      rcases Db.createExecutionReservation_cases hrun with ⟨_, hdb⟩ | ⟨record, rfl, hp, hf, hr⟩
      · exact .inl (hold (hdb ▸ he'))
      · rw [hr.eq] at he'
        rcases List.mem_append.mp he' with he' | hnew
        · exact .inl (hold he')
        · rw [List.mem_singleton.mp hnew]
          refine .inr (.inl ⟨p, f, t, _, rfl, heffect, Prod.ext hp rfl, hf, fun e he hkey => ?_⟩)
          have hfresh := hr.fresh e he
          rw [ExecutionRecord.isAttempt_iff.mpr hkey] at hfresh
          cases hfresh
    | claimExecutionReservation expected claimant t =>
      rcases Db.claimExecutionReservation_cases hrun with hdb | ⟨e, ha, hdb⟩
      · exact .inl (hold (hdb ▸ he'))
      · rw [hdb] at he'
        rcases hupdate ha he' with ⟨he, rfl⟩ | he
        · exact .inr (.inr ⟨expected, claimant, t, rfl, rfl, e, he, rfl⟩)
        · exact .inl (hold he)
    | renewExecutionReservation fence t phase =>
      rcases Db.renewExecutionReservation_cases hrun with ⟨_, hdb⟩ | ⟨_, e, ha, _, hdb⟩
      · exact .inl (hold (hdb ▸ he'))
      · rw [hdb] at he'
        rcases hupdate ha he' with ⟨he, rfl⟩ | he
        · exact .inl ⟨e, he, rfl, rfl⟩
        · exact .inl (hold he)
    | _ =>
      refine .inl (hrest (fun p f t heq => by cases heq) fun tx heq => ?_)
      cases heq
      exact Bool.false_ne_true
  · exact .inl (hrest (fun _ _ _ h => hcommit ⟨_, h⟩) fun _ h => absurd ⟨_, h⟩ hcommit)

/-- A reservation that was noted is of a new attempt. -/
theorem exec_created {p : String} {f : LeaseFence} {t : Time} {n : Nat}
    {r : Option (Tx.Answer (.createExecutionReservation p f t))}
    (hx : exec pid (.commit (.createExecutionReservation p f t)) ch w = some (r, w'))
    (heffect : Tx.effect (.createExecutionReservation p f t) ch w = some (.created n)) :
    (∃ e ∈ w'.db.executions, e.key = (p, n)) ∧ ∀ e ∈ w.db.executions, e.key ≠ (p, n) := by
  rcases exec_commit_cases hx with ⟨hnone, _⟩ | ⟨a, current, heq, _, hrun⟩
  · rw [hnone] at heffect
    cases heffect
  rw [heffect] at heq
  cases heq
  rcases Db.createExecutionReservation_cases hrun with ⟨hne, _⟩ | ⟨record, hattempt, hp, _, hr⟩
  · exact absurd rfl (hne n)
  have hkey : record.key = (p, n) := Prod.ext hp (ReservationWrite.created.inj hattempt).symm
  refine ⟨⟨record, ?_, hkey⟩, fun e he he' => ?_⟩
  · rw [hr.eq]
    exact List.mem_append_right _ (List.mem_singleton.mpr rfl)
  · have hfresh := hr.fresh e he
    rw [ExecutionRecord.isAttempt_iff.mpr (he'.trans hkey.symm)] at hfresh
    cases hfresh

theorem SendLog.Proper.cons {e : SendEvent} (h : SendLog.Proper owner log)
    (he : ∀ pid k ready, e = .handed pid k ready → ready = true ∧
      (∃ holder, .claimed pid k holder ∈ log ∧ owner holder = some pid) ∧
      ∀ q r, .handed q k r ∉ log) : SendLog.Proper owner (e :: log) := by
  intro newer older pid k ready heq
  cases newer with
  | nil =>
    obtain ⟨rfl, rfl⟩ := List.cons.inj heq
    exact he pid k ready rfl
  | cons x newer => exact h newer older pid k ready (List.cons.inj heq).2

/-- What is handed over is ready. -/
def Op.Ready (w : World) : Op → Prop
  | .node (.submitTransaction proposalId attempt evidence) =>
    w.ready (proposalId, attempt) evidence = true
  | _ => True

namespace SendLogInv

theorem of_exec (hi : SendLogInv owner w log) (hx : exec pid op ch w = some (r, w'))
    (hok : LogOk owner pid log op) (hready : op.Ready w) :
    SendLogInv owner w' (SendLog.note pid op ch w log) := by
  have heff := (exec_effect hx).2
  have hn := SendLog.noted pid op ch w log
  obtain ⟨es, hes, _⟩ := hn.appends
  have hkeep : ∀ {e}, e ∈ log → e ∈ SendLog.note pid op ch w log :=
    fun he => hes ▸ List.mem_append_right _ he
  have hknown : ∀ {q k}, .reserved q k ∈ log → ∃ e ∈ w'.db.executions, e.key = k := by
    intro q k hk
    obtain ⟨e, he, rfl⟩ := hi.known hk
    obtain ⟨e', he', hkey, _⟩ := heff.attempt_to hi.attempts he
    exact ⟨e', he', hkey⟩
  have hholder : ∀ {e q}, e ∈ w'.db.executions → owner e.reservation.fence.holderId = some q →
      .reserved q e.key ∈ SendLog.note pid op ch w log := by
    intro e' q he' hq
    rcases exec_holder hi.attempts hx he' with ⟨e, he, hkey, hid⟩ | ⟨p, f, t, n, rfl, heffect, hkey, rfl, _⟩ |
      ⟨_, _, _, rfl, hid, _⟩
    · rw [← hkey]
      exact hkeep (hi.holder he (hid ▸ hq))
    · rw [hok.2] at hq
      cases hq
      rw [hkey]
      simp [SendLog.note, heffect]
    · rw [hid, show owner _ = none from hok] at hq
      cases hq
  refine ⟨hi.attempts.of_step (heff.attempts hi.attempts), ?_, ?_, ?_, hholder, ?_, ?_⟩ <;>
    generalize SendLog.note pid op ch w log = log' at hn
  · intro q k hk
    cases hn with
    | nothing => exact hknown hk
    | reserved heffect =>
      rcases List.mem_cons.mp hk with hnew | hk
      · cases hnew
        exact (exec_created hx heffect).1
      · exact hknown hk
    | claimed | handed => exact hknown (by simpa using hk)
  · intro q q' k hk hk'
    cases hn with
    | nothing => exact hi.reserver hk hk'
    | reserved heffect =>
      have hfresh := (exec_created hx heffect).2
      rcases List.mem_cons.mp hk with hnew | hk <;> rcases List.mem_cons.mp hk' with hnew' | hk'
      · cases hnew
        cases hnew'
        rfl
      · cases hnew
        obtain ⟨e, he, hkey⟩ := hi.known hk'
        exact absurd hkey (hfresh e he)
      · cases hnew'
        obtain ⟨e, he, hkey⟩ := hi.known hk
        exact absurd hkey (hfresh e he)
      · exact hi.reserver hk hk'
    | claimed | handed => exact hi.reserver (by simpa using hk) (by simpa using hk')
  · intro q k k' hk hk'
    cases hn with
    | nothing => exact hi.one hk hk'
    | reserved heffect =>
      rcases List.mem_cons.mp hk with hnew | hk <;> rcases List.mem_cons.mp hk' with hnew' | hk'
      · cases hnew
        cases hnew'
        rfl
      · cases hnew
        exact absurd hk' (hok.1 k')
      · cases hnew'
        exact absurd hk (hok.1 k)
      · exact hi.one hk hk'
    | claimed | handed => exact hi.one (by simpa using hk) (by simpa using hk')
  · intro q k r hk
    cases hn with
    | nothing => exact hi.handed hk
    | reserved | claimed => exact .tail _ (hi.handed (by simpa using hk))
    | handed =>
      refine .tail _ ?_
      rcases List.mem_cons.mp hk with hnew | hk
      · cases hnew
        exact hok.1
      · exact hi.handed hk
  · cases hn with
    | nothing => exact hi.proper
    | reserved | claimed => exact hi.proper.cons nofun
    | handed =>
      refine hi.proper.cons fun q k ready heq => ?_
      cases heq
      refine ⟨hready, hok.2.1, fun q r hin => ?_⟩
      -- whoever handed it over had reserved it
      rw [hi.reserver (hi.handed hin) hok.1] at hin
      exact hok.2.2 _ _ hin

end SendLogInv

theorem sending_kept {net : Network} {G : RunGuard} (owner : String → Option Nat) :
    (sending owner).Kept ((machine net).recorded SendLog.note) G.recorded
      (fun _ op x => op.Ready x.1) where
  call := by
    intro pid op ch x r x' hready hok _ hx hi
    obtain ⟨hexec, hlog⟩ := recorded_exec hx
    obtain ⟨es, hes, hpid⟩ := (SendLog.noted pid op ch x.1 x.2).appends
    refine ⟨?_, fun {q} hq => ⟨es, hlog.trans hes, fun e he heq => hq (heq.symm.trans (hpid e he))⟩⟩
    show SendLogInv owner x'.1 x'.2
    rw [hlog]
    exact SendLogInv.of_exec hi hexec hok hready
  act := by
    intro a x x' _ hx hi
    obtain ⟨hact, hlog⟩ := recorded_act hx
    refine ⟨?_, [], hlog, nofun⟩
    show SendLogInv owner x'.1 x'.2
    have hdb := (act_effect hact).db
    rw [hlog]
    exact ⟨hdb ▸ hi.attempts, by rw [hdb]; exact hi.known, hi.reserver, hi.one,
      by rw [hdb]; exact hi.holder, hi.handed, hi.proper⟩

end Calls

/-! ## Processes -/

/-- The call neither reserves nor sends. -/
def Op.unsent : Op → Bool
  | .commit (.createExecutionReservation ..) | .commit (.claimExecutionReservation ..)
  | .node (.submitTransaction ..) => false
  | _ => true

theorem Op.unsent_of_quiet {o : Op} (h : o.quiet = true) : o.unsent = true := by
  cases o with
  | commit tx => cases tx <;> first | rfl | cases h
  | node n => cases n <;> first | rfl | cases h
  | _ => rfl

/-- The server with its record of who sends. -/
abbrev sendMachine (net : Network) : Machine Op Res (World × SendLog) Choice Act :=
  (machine net).recorded SendLog.note

abbrev sendGuard (owner : String → Option Nat) : Guard Op Request (World × SendLog) Choice Act :=
  (holderRuns owner).recorded

section Facts
variable {net : Network} {owner : String → Option Nat} {pid : Nat} {k : String × Nat}
  {x x' : World × SendLog}

/-- The process has reserved nothing. -/
def Unreserved (pid : Nat) (x : World × SendLog) : Prop := ∀ k, .reserved pid k ∉ x.2

/-- The process has reserved the attempt and sent nothing. -/
structure Reserver (pid : Nat) (k : String × Nat) (x : World × SendLog) : Prop where
  reserved : .reserved pid k ∈ x.2
  unsent : ∀ k' r, .handed pid k' r ∉ x.2

/-- And it has claimed the send. -/
structure Claimant (owner : String → Option Nat) (pid : Nat) (k : String × Nat)
    (x : World × SendLog) : Prop extends Reserver pid k x where
  claimed : ∃ holder, .claimed pid k holder ∈ x.2 ∧ owner holder = some pid

/-- What others record is not the process's own. -/
theorem sending_own (h : (sending owner).rely pid x x') {e : SendEvent} (he : e.pid = pid) :
    e ∈ x'.2 ↔ e ∈ x.2 := by
  obtain ⟨es, hes, hpid⟩ := h
  rw [hes, List.mem_append]
  exact or_iff_right fun hin => hpid e hin he

theorem Unreserved.stable (h : (sending owner).rely pid x x') (hx : Unreserved pid x) :
    Unreserved pid x' := fun k hk => hx k ((sending_own h rfl).mp hk)

theorem Reserver.stable (h : (sending owner).rely pid x x') (hx : Reserver pid k x) :
    Reserver pid k x' :=
  ⟨(sending_own h rfl).mpr hx.reserved, fun k' r hk => hx.unsent k' r ((sending_own h rfl).mp hk)⟩

theorem Claimant.stable (h : (sending owner).rely pid x x') (hx : Claimant owner pid k x) :
    Claimant owner pid k x' := by
  obtain ⟨holder, hclaimed, howner⟩ := hx.claimed
  exact ⟨hx.toReserver.stable h, holder, (sending_own h rfl).mpr hclaimed, howner⟩

/-- A call that neither reserves nor sends adds claims at most. -/
theorem unsent_note {op : Op} (ch : Choice) (w : World) (log : SendLog) (h : op.unsent = true) :
    ∃ es, SendLog.note pid op ch w log = es ++ log ∧ ∀ e ∈ es, ∃ k holder, e = .claimed pid k holder := by
  have hn := SendLog.noted pid op ch w log
  generalize SendLog.note pid op ch w log = log' at hn
  cases hn with
  | nothing => exact ⟨[], rfl, nofun⟩
  | claimed => exact ⟨[_], rfl, fun e he => ⟨_, _, List.mem_singleton.mp he⟩⟩
  | reserved | handed => cases h

theorem unsent_mem {op : Op} {ch : Choice} {w : World} {log : SendLog} (h : op.unsent = true)
    {e : SendEvent} (he : ∀ k holder, e ≠ .claimed pid k holder) :
    e ∈ SendLog.note pid op ch w log ↔ e ∈ log := by
  obtain ⟨es, hes, hclaims⟩ : ∃ es, SendLog.note pid op ch w log = es ++ log ∧
      ∀ e ∈ es, ∃ k holder, e = .claimed pid k holder := unsent_note ch w log h
  rw [hes, List.mem_append]
  refine or_iff_right fun hin => ?_
  obtain ⟨k, holder, heq⟩ := hclaims e hin
  exact he k holder heq

theorem logOk_of_unsent {op : Op} (h : op.unsent = true) {log : SendLog} : LogOk owner pid log op := by
  cases op with
  | commit tx => cases tx <;> trivial
  | node n => cases n <;> trivial
  | _ => trivial

variable (net owner pid)

theorem steady_true : (sending owner).Steady (sendMachine net) (sendGuard owner) pid
    (fun o => o.unsent = true) (fun _ => True) where
  stable := fun _ _ => trivial
  own := fun _ _ _ _ _ => trivial
  ok := fun h _ _ => logOk_of_unsent h

theorem steady_unreserved : (sending owner).Steady (sendMachine net) (sendGuard owner) pid
    (fun o => o.unsent = true) (Unreserved pid) where
  stable := Unreserved.stable
  own := by
    intro op ch r x x' hop _ hx _ hF k hk
    rw [(recorded_exec hx).2] at hk
    exact hF k ((unsent_mem hop (by simp)).mp hk)
  ok := fun h _ _ => logOk_of_unsent h

theorem steady_reserver (k : String × Nat) : (sending owner).Steady (sendMachine net)
    (sendGuard owner) pid (fun o => o.unsent = true) (Reserver pid k) where
  stable := Reserver.stable
  own := by
    intro op ch r x x' hop _ hx _ hF
    have hlog := (recorded_exec hx).2
    refine ⟨?_, fun k' r hk => ?_⟩
    · rw [hlog]
      exact (unsent_mem hop (by simp)).mpr hF.reserved
    · rw [hlog] at hk
      exact hF.unsent k' r ((unsent_mem hop (by simp)).mp hk)
  ok := fun h _ _ => logOk_of_unsent h

theorem steady_claimant (k : String × Nat) : (sending owner).Steady (sendMachine net)
    (sendGuard owner) pid (fun o => o.unsent = true) (Claimant owner pid k) where
  stable := Claimant.stable
  own := by
    intro op ch r x x' hop hg hx hi hF
    refine ⟨(steady_reserver net owner pid k).own hop hg hx hi hF.toReserver, ?_⟩
    obtain ⟨holder, hclaimed, howner⟩ := hF.claimed
    obtain ⟨es, hes, _⟩ := (SendLog.noted pid op ch x.1 x.2).appends
    rw [(recorded_exec hx).2, hes]
    exact ⟨holder, List.mem_append_right _ hclaimed, howner⟩
  ok := fun h _ _ => logOk_of_unsent h

end Facts

section Processes
variable {net : Network} {cfg : Config} {owner : String → Option Nat} {pid : Nat} {k : String × Nat}
  {x : World × SendLog} {ε α β : Type}

/-- A procedure that neither reserves nor sends. -/
theorem sends_unsent {y : Proc ε α} (hy : Makes (fun o => o.unsent = true) y) :
    (sending owner).Ensures (sendMachine net) (sendGuard owner) pid y (fun _ _ => True)
      (fun _ => True) x :=
  Rely.Ensures.frame (steady_true net owner pid) hy trivial fun _ => trivial

/-- A first part that neither reserves nor sends. -/
theorem sends_seq {y : Proc ε α} {f : α → Proc ε β} {F : World × SendLog → Prop}
    {Q : β → World × SendLog → Prop}
    (hF : (sending owner).Steady (sendMachine net) (sendGuard owner) pid (fun o => o.unsent = true) F)
    (hy : Makes (fun o => o.unsent = true) y) (hx : F x)
    (hf : ∀ a x', F x' → (sending owner).Ensures (sendMachine net) (sendGuard owner) pid (f a) Q
      (fun _ => True) x') :
    (sending owner).Ensures (sendMachine net) (sendGuard owner) pid (y >>= f) Q (fun _ => True) x :=
  Rely.Ensures.seq hF hy hx (fun _ => trivial) hf

namespace Worker

/-- A renewal that was applied is of the attempt the process reserved: no other
one is under its id. -/
theorem claimed_of_applied {fence : LeaseFence} {expiresAt : Time} {ch : Choice}
    {x' : World × SendLog} (hfence : owner fence.holderId = some pid)
    (hexec : (sendMachine net).exec pid
      (.commit (.renewExecutionReservation fence expiresAt .sent)) ch x = some (some .applied, x'))
    (hi : SendLogInv owner x.1 x.2) (hx : Reserver pid k x) :
    .claimed pid k fence.holderId ∈ x'.2 := by
  obtain ⟨hexec, hlog⟩ := recorded_exec hexec
  rcases exec_commit_cases hexec with ⟨_, hnone, _⟩ | ⟨a, current, heffect, hanswer, hrun⟩
  · cases hnone
  cases hanswer _ rfl
  rcases Db.renewExecutionReservation_cases hrun with ⟨hne, _⟩ | ⟨_, e, he, rfl, _⟩
  · exact absurd rfl hne
  have hkey : e.key = k :=
    hi.one (hi.holder (Db.activeExecution_eq_some he).1 hfence) hx.reserved
  rw [hlog, ← hkey]
  simp [SendLog.note, heffect, he]

/-- A claim to send that holds the reservation. -/
theorem sends_claim {fence : LeaseFence} (hfence : owner fence.holderId = some pid)
    (hx : Reserver pid k x) :
    (sending owner).Ensures (sendMachine net) (sendGuard owner) pid
      (Renewal.attempt cfg fence .sent : Proc ε _)
      (fun r x' => Reserver pid k x' ∧ (r = .held → Claimant owner pid k x')) (fun _ => True) x := by
  have hquiet : ∀ {o : Op}, o.quiet = true → o.unsent = true := Op.unsent_of_quiet
  unfold Renewal.attempt
  refine sends_seq (steady_reserver net owner pid k) (makes_now hquiet) hx fun now x₁ h₁ => ?_
  refine sends_seq (steady_reserver net owner pid k) (makes_lease hquiet _) h₁ fun renewed x₂ h₂ => ?_
  split
  · refine Rely.Ensures.bind' (sends_seq (steady_reserver net owner pid k)
      (Makes.op' (hquiet rfl)) h₂ fun _ x₃ h₃ => Rely.Ensures.op' fun x₄ hrely hi => ⟨trivial,
        fun ch r x₅ hguard hexec hi₅ => ?_⟩)
    have h₅ : Reserver pid k x₅ :=
      (steady_reserver net owner pid k).own rfl hguard hexec hi (h₃.stable hrely)
    split
    · refine Rely.Ensures.pure' ⟨h₅, fun _ => ⟨h₅, fence.holderId, ?_, hfence⟩⟩
      exact claimed_of_applied hfence hexec hi (h₃.stable hrely)
    · exact Rely.Ensures.pure' ⟨h₅, nofun⟩
    · exact Rely.Ensures.pure' ⟨h₅, nofun⟩
  · exact Rely.Ensures.pure' ⟨h₂, nofun⟩
  · exact Rely.Ensures.pure' ⟨h₂, nofun⟩

variable {job : ExecutionJob}

/-- `claim_send` returns whether the send was claimed. -/
theorem sends_claimSend (hfence : owner job.fence.holderId = some pid) (retries : Nat)
    (hx : Reserver pid k x) :
    (sending owner).Ensures (sendMachine net) (sendGuard owner) pid (claimSend cfg job retries)
      (fun claimed x' => claimed = true → Claimant owner pid k x') (fun _ => True) x := by
  have hquiet : ∀ {o : Op}, o.quiet = true → o.unsent = true := Op.unsent_of_quiet
  induction retries generalizing x with
  | zero => exact Rely.Ensures.pure' nofun
  | succ retries ih =>
    unfold claimSend
    refine sends_seq (steady_reserver net owner pid k) (makes_flag hquiet) hx fun _ x₁ h₁ => ?_
    split
    · exact Rely.Ensures.pure' nofun
    refine Rely.Ensures.bind' ((sends_claim hfence h₁).mono fun renewal x₂ h₂ => ?_)
    split
    · refine sends_seq (steady_claimant net owner pid k) (makes_flag hquiet) (h₂.2 rfl)
        fun _ x₃ h₃ => ?_
      exact Rely.Ensures.pure' fun _ => h₃
    · exact Rely.Ensures.pure' nofun
    · exact Rely.Ensures.pure' nofun
    · exact ih h₂.1

theorem makes_resolve_unsent (failure : ExecutionFailureCode) (crossed : Bool) :
    Makes (fun o => o.unsent = true) (resolve job failure crossed) :=
  makes_resolve job Op.unsent_of_quiet failure crossed rfl

/-- The send itself. -/
theorem sends_submit {evidence : SubmissionEvidence}
    (hx : Claimant owner pid (job.params.proposalId, job.attempt) x) :
    (sending owner).Ensures (sendMachine net) (sendGuard owner) pid (submit job evidence)
      (fun _ _ => True) (fun _ => True) x := by
  unfold submit
  refine Rely.Ensures.bind' (Rely.Ensures.op' fun x₁ hrely _ => ⟨?_, fun _ _ _ _ _ _ => ?_⟩)
  · have h₁ := hx.stable hrely
    exact ⟨h₁.reserved, h₁.claimed, h₁.unsent⟩
  · split
    · exact sends_unsent (makes_resolve_unsent _ _)
    · exact sends_unsent (makes_resolve_unsent _ _)
    · exact Rely.Ensures.pure' trivial
    · exact Rely.Ensures.pure' trivial

theorem sends_runExecution (hfence : owner job.fence.holderId = some pid)
    (hx : Reserver pid (job.params.proposalId, job.attempt) x) :
    (sending owner).Ensures (sendMachine net) (sendGuard owner) pid (runExecution net cfg job)
      (fun _ _ => True) (fun _ => True) x := by
  have hquiet : ∀ {o : Op}, o.quiet = true → o.unsent = true := Op.unsent_of_quiet
  have hrelease : ∀ {x}, (sending owner).Ensures (sendMachine net) (sendGuard owner) pid
      (releaseQuietly job.fence : Service Unit) (fun _ _ => True) (fun _ => True) x :=
    sends_unsent (makes_releaseQuietly hquiet _)
  unfold runExecution
  refine sends_seq (steady_reserver net owner pid _)
    (makes_absorb (makes_runToBoundary job hquiet fun _ => rfl)) hx fun r x₁ h₁ => ?_
  split
  · refine Rely.Ensures.bind' ((sends_claimSend hfence _ h₁).mono fun claimed x₂ h₂ => ?_)
    split
    · next hclaimed =>
      exact Rely.Ensures.bind' ((sends_submit (h₂ hclaimed)).mono fun _ _ _ => hrelease)
    · exact hrelease
  · exact Rely.Ensures.bind' ((sends_unsent (makes_resolve_unsent _ _)).mono fun _ _ _ => hrelease)
  · exact hrelease

end Worker
/-- A lease is acquired under the id it was asked for. -/
theorem exec_tryAcquire {name holderId : String} {ttl : Time} {ch : Choice} {w w' : World}
    {row : LeaseRow}
    (h : exec pid (.lease (.tryAcquire name holderId ttl)) ch w = some (some (some row), w')) :
    row.holderId = holderId := by
  unfold exec at h
  split at h
  · cases h
  simp only at h
  split at h
  · cases h
  simp only [LeaseCall.run, Option.some.injEq, Prod.mk.injEq] at h
  obtain ⟨h, _⟩ := h
  split at h
  swap
  · cases h
  rw [Option.some.injEq] at h
  unfold Db.tryAcquire at h
  split at h
  · cases h; rfl
  split at h
  · cases h; rfl
  · cases h

/-- An attempt the process was told it created is its own. -/
theorem reserver_of_created {proposalId : String} {fence : LeaseFence} {expiresAt : Time}
    {ch : Choice} {attempt : Nat} {x' : World × SendLog}
    (hexec : (sendMachine net).exec pid
      (.commit (.createExecutionReservation proposalId fence expiresAt)) ch x =
        some (some (.created attempt), x'))
    (hi : SendLogInv owner x.1 x.2) (hx : Unreserved pid x) :
    Reserver pid (proposalId, attempt) x' := by
  obtain ⟨hexec, hlog⟩ := recorded_exec hexec
  rcases exec_commit_cases hexec with ⟨_, hnone, _⟩ | ⟨a, current, heffect, hanswer, _⟩
  · cases hnone
  cases hanswer _ rfl
  have hlog : x'.2 = .reserved pid (proposalId, attempt) :: x.2 := by
    rw [hlog]
    simp [SendLog.note, heffect]
  refine ⟨hlog ▸ List.mem_cons_self, fun k' r hk => ?_⟩
  -- it sent nothing, having reserved nothing
  rw [hlog] at hk
  exact hx k' (hi.handed (List.mem_of_ne_of_mem (by simp) hk))

theorem sends_reserveAndRun {params : RequestExecutionParams} {proposal : DeltaObject}
    {scheme : SignatureScheme} {guardian : Option String} {row : LeaseRow}
    (howner : owner row.holderId = some pid) (hx : Unreserved pid x) :
    (sending owner).Ensures (sendMachine net) (sendGuard owner) pid
      (reserveAndRun net cfg params proposal scheme guardian row)
      (fun _ _ => True) (fun _ => True) x := by
  have hquiet : ∀ {o : Op}, o.quiet = true → o.unsent = true := Op.unsent_of_quiet
  have hrelease : ∀ {fence : LeaseFence} {y : Service Unit} {x : World × SendLog},
      Makes (fun o => o.unsent = true) y →
      (sending owner).Ensures (sendMachine net) (sendGuard owner) pid
        (releaseQuietly fence >>= fun _ => y) (fun _ _ => True) (fun _ => True) x :=
    fun hy => sends_unsent ((Worker.makes_releaseQuietly hquiet _).bind' fun _ => hy)
  unfold reserveAndRun
  refine sends_seq (steady_unreserved net owner pid) (makes_flag hquiet) hx fun busy x₁ h₁ => ?_
  dsimp only
  split
  · exact hrelease (makes_fail _)
  refine Rely.Ensures.bind' (sends_seq (steady_unreserved net owner pid)
    (Makes.op' (hquiet rfl)) h₁ fun _ x₂ h₂ => Rely.Ensures.op' fun x₃ hrely hi =>
      ⟨⟨h₂.stable hrely, howner⟩, fun ch r x₄ _ hexec _ => ?_⟩)
  split
  · exact Worker.sends_runExecution howner (reserver_of_created hexec hi (h₂.stable hrely))
  · refine hrelease ?_
    split
    · refine (makes_orFail (makes_query hquiet _)).bind' fun _ => ?_
      split <;> trivial
    · exact makes_fail _
  · exact hrelease (makes_fail _)
  · exact hrelease (makes_fail _)
  · exact hrelease (makes_alreadyExecuting hquiet _)
  · exact hrelease (makes_fail _)

/-- The lease is acquired under the request's own id. -/
theorem sends_acquireAndRun {params : RequestExecutionParams} {proposal : DeltaObject}
    {scheme : SignatureScheme} {guardian : Option String}
    (howner : (owner params.holderId).isSome = true) (hx : Unreserved pid x) :
    (sending owner).Ensures (sendMachine net) (sendGuard owner) pid
      (acquireAndRun net cfg params proposal scheme guardian)
      (fun _ _ => True) (fun _ => True) x := by
  have hquiet : ∀ {o : Op}, o.quiet = true → o.unsent = true := Op.unsent_of_quiet
  unfold acquireAndRun
  refine Rely.Ensures.bind' (Rely.Ensures.bind' (Rely.Ensures.op' fun x₁ hrely hi => ⟨trivial,
    fun ch r x₂ hguard hexec _ => ?_⟩))
  have h₂ : Unreserved pid x₂ :=
    (steady_unreserved net owner pid).own rfl hguard hexec hi (hx.stable hrely)
  have hown : owner params.holderId = some pid := by
    obtain ⟨q, hq⟩ := Option.isSome_iff_exists.mp howner
    simpa [sendGuard, Guard.recorded, holderRuns, hq] using hguard
  cases r with
  | none => exact Rely.Ensures.throw' _ trivial
  | some acquired =>
    refine Rely.Ensures.pure' ?_
    cases acquired with
    | none => exact sends_unsent (makes_alreadyExecuting hquiet _)
    | some row =>
      refine sends_reserveAndRun ?_ h₂
      rw [exec_tryAcquire (recorded_exec hexec).1]
      exact hown

theorem sends_requestExecution {params : RequestExecutionParams}
    (howner : (owner params.holderId).isSome = true) (hx : Unreserved pid x) :
    (sending owner).Ensures (sendMachine net) (sendGuard owner) pid
      (requestExecution net cfg params) (fun _ _ => True) (fun _ => True) x := by
  have hZ : AfterQuiet fun y => ∀ x, Unreserved pid x → (sending owner).Ensures (sendMachine net)
      (sendGuard owner) pid y (fun _ _ => True) (fun _ => True) x :=
    ⟨fun hy _ _ => sends_unsent (hy.mono fun _ => Op.unsent_of_quiet),
      fun hy hf _ hx => sends_seq (steady_unreserved net owner pid)
        (hy.mono fun _ => Op.unsent_of_quiet) hx hf⟩
  exact hZ.requestExecution params (fun _ _ _ _ hx => sends_acquireAndRun howner hx) x hx

namespace Reconciler

/-- A reconciler takes a reservation over under an id no worker has. -/
theorem sends_takeOwnership {holderId : String} {record : ExecutionRecord}
    (howner : owner holderId = none) :
    (sending owner).Ensures (sendMachine net) (sendGuard owner) pid
      (takeOwnership cfg holderId record) (fun _ _ => True) (fun _ => True) x := by
  have hquiet : ∀ {o : Op}, o.quiet = true → o.unsent = true := Op.unsent_of_quiet
  unfold takeOwnership
  refine Rely.Ensures.bind' (Rely.Ensures.op' fun x₁ _ _ => ⟨trivial,
    fun ch r x₂ _ hexec _ => ?_⟩)
  split
  · next row =>
    have hrow : row.holderId = holderId := exec_tryAcquire (recorded_exec hexec).1
    dsimp only
    split
    · exact Rely.Ensures.pure' trivial
    refine Rely.Ensures.bind' (sends_seq (steady_true net owner pid) (Makes.op' (hquiet rfl))
      trivial fun _ x₃ _ => Rely.Ensures.op' fun x₄ _ _ => ⟨?_, fun ch r x₅ _ _ _ => ?_⟩)
    · show owner row.holderId = none
      rw [hrow]
      exact howner
    · split
      · exact Rely.Ensures.pure' trivial
      · exact sends_unsent ((Worker.makes_releaseQuietly hquiet _).bind' fun _ => trivial)
  · exact Rely.Ensures.pure' trivial

theorem sends_pass {holderId : String} {kind : PassKind} {restarted : Bool}
    (howner : owner holderId = none) :
    (sending owner).Ensures (sendMachine net) (sendGuard owner) pid
      (pass cfg holderId kind restarted) (fun _ _ => True) (fun _ => True) x := by
  have hquiet : ∀ {o : Op}, o.quiet = true → o.unsent = true := Op.unsent_of_quiet
  have hsteady := steady_true net owner pid
  unfold pass
  refine sends_seq hsteady (makes_orFail (makes_query hquiet _)) trivial fun active x₁ _ => ?_
  split
  · exact Rely.Ensures.pure' trivial
  next record =>
  unfold reconcile
  refine sends_seq hsteady (makes_now hquiet) trivial fun now x₂ _ => ?_
  split
  · exact Rely.Ensures.pure' trivial
  refine Rely.Ensures.bind' ((sends_takeOwnership howner).mono fun owned x₃ _ => sends_unsent ?_)
  unfold reconcile.observeInTime
  repeat' with_reducible first
    | exact makes_pure _
    | exact makes_fail _
    | exact makes_now hquiet
    | exact makes_flag hquiet
    | exact makes_observe hquiet _
    | exact makes_hold hquiet _ _
    | exact makes_renewAfterObserving hquiet _
    | exact makes_settle hquiet _ _ _ _ rfl
    | exact Worker.makes_releaseQuietly hquiet _
    | refine makes_fenced (hquiet rfl) rfl
    | refine makes_absorb ?_
    | refine makes_guard fun _ => ?_
    | refine Makes.bind' ?_ fun _ => ?_
    | dsimp only
    | split

end Reconciler

/-- Every process that has reserved nothing yet keeps the discipline. -/
theorem body_sends {req : Request} (hspawn : (holderRuns owner).spawn req x.1 = true)
    (hx : Unreserved pid x) :
    (sending owner).wp (sendMachine net) (sendGuard owner) pid (body net cfg req)
      (fun _ _ => True) x := by
  have hreturns : ∀ {program : Service Unit},
      (sending owner).Ensures (sendMachine net) (sendGuard owner) pid program (fun _ _ => True)
        (fun _ => True) x →
      (sending owner).wp (sendMachine net) (sendGuard owner) pid
        (do let _ ← program.run; Prog.op Op.returns) (fun _ _ => True) x :=
    fun h => Rely.wp_bind (Rely.wp_mono h fun _ _ _ _ _ _ => ⟨trivial, fun _ _ _ _ _ _ => trivial⟩)
  cases hreq : req.isExecution with
  | true =>
    refine hreturns ?_
    cases req with
    | execute params => exact sends_requestExecution hspawn hx
    | heartbeat fence phase =>
      exact sends_unsent ((Worker.makes_renewal Op.unsent_of_quiet _ _).bind' fun _ => trivial)
    | reconcileExecutions holderId kind restarted =>
      exact Reconciler.sends_pass (Option.isNone_iff_eq_none.mp hspawn)
    | _ => cases hreq
  | false =>
    have hnot : req.isExecution ≠ true := by simp [hreq]
    have hcalls : (body net cfg req).Calls (fun o => o.unsent = true) :=
      body_calls_of_fit ⟨Op.unsent_of_quiet, fun _ _ _ => rfl, fun _ _ _ => ⟨rfl, rfl⟩, rfl, rfl,
          fun h => absurd h hnot, fun h => absurd h hnot, fun h => absurd h hnot,
          fun h => absurd h hnot, fun h => absurd h hnot⟩
        (fun _ _ => rfl) (fun _ => ⟨fun _ _ => rfl, fun _ _ => rfl⟩) rfl rfl
    exact Rely.wp_mono (Rely.wp_frame (steady_true net owner pid) hcalls Prog.Results.trivial trivial)
      fun _ _ _ => trivial

end Processes

/-! ## Runs -/

section Runs
variable {net : Network} {cfg : Config} {G : RunGuard} {owner : String → Option Nat} {w₀ : World}

/-- What is recorded is of processes that were started. -/
theorem recorded_started {d : Conf Op Res (World × SendLog) Request}
    (h : Reach (sendMachine net) (body net cfg) (sendGuard owner) (w₀, []) d) {e : SendEvent}
    (he : e ∈ d.world.2) : d.procs e.pid ≠ none := by
  induction h with
  | init => cases he
  | step ev hr hs ih =>
    have hset : ∀ {c : Conf Op Res (World × SendLog) Request} {pid q : Nat} {req : Request}
        {p : GProg Unit}, c.procs q ≠ none ∨ q = pid → (c.setProc pid req p).procs q ≠ none := by
      intro c pid q req p h
      by_cases hq : q = pid
      · simp [Conf.setProc, hq]
      · simpa [Conf.setProc, hq] using h
    obtain ⟨pid, req, _, _, rfl⟩ | ⟨pid, ch, req, op, k, r, x, hp, _, hx, rfl⟩ |
      ⟨a, x, _, hx, rfl⟩ := step_cases hs
    · exact hset (.inl (ih he))
    · have hlog := (recorded_exec hx).2
      obtain ⟨es, hes, hpid⟩ := (SendLog.noted pid op ch _ _).appends
      have he' : e ∈ es ++ _ := hes ▸ hlog ▸ he
      rcases List.mem_append.mp he' with hnew | hold
      · exact hset (.inr (hpid e hnew))
      · exact hset (.inl (ih hold))
    · exact ih ((recorded_act hx).2 ▸ he)

/-- Evidence is recorded together with the candidate. -/
theorem Reachable.evidence_noted (hfresh : w₀.Fresh net) {c : SystemConf}
    (h : Reachable net cfg G w₀ c) : c.world.db.AttemptInv ∧ ∀ {k evidence},
      c.world.db.Evidenced k evidence → ∃ id, (k, id) ∈ c.world.ghost.executionRows := by
  refine Reachable.induct (I := fun w => w.db.AttemptInv ∧ ∀ {k evidence},
    w.db.Evidenced k evidence → ∃ id, (k, id) ∈ w.ghost.executionRows) ⟨?_, ?_⟩ ?_ ?_ h
  · constructor <;> simp [hfresh.executions]
  · rintro k evidence ⟨e, he, _⟩
    simp [hfresh.executions] at he
  · intro pid op w w' _ heff hi
    refine ⟨hi.1.of_step (heff.attempts hi.1), fun {k evidence} hev => ?_⟩
    rcases heff.evidenced_back hi.1 hev with hev | ⟨a, rfl, had, rfl, _⟩
    · obtain ⟨id, hid⟩ := hi.2 hev
      exact ⟨id, CommitInv.rows_mono heff hid⟩
    · exact ⟨w.db.nextId, heff.row_noted had ▸ List.mem_cons_self⟩
  · intro w w' hact hi
    have hrows : w'.ghost.executionRows = w.ghost.executionRows := by cases hact <;> rfl
    rw [hact.db, hrows]
    exact hi

/-- What a process is about to hand over is ready. -/
theorem Reachable.ready (law : net.Lawful) (hfresh : w₀.Fresh net) {c : SystemConf}
    (h : Reachable net cfg G w₀ c) {pid : Nat} {req : Request} {op : Op} {k : Res op → GProg Unit}
    (hp : c.procs pid = some (req, .call op k)) : op.Ready c.world := by
  obtain ⟨_, _, hok⟩ := Reach.ok (outcomes_kept law (Op.Fits net cfg))
    (fun req _ _ => body_calls net cfg req) (.of_fresh hfresh) (fun _ req _ _ _ => body_outcomes req)
    h hp
  cases op with
  | node n =>
    cases n with
    | submitTransaction proposalId attempt evidence =>
      have hev : c.world.db.Evidenced (proposalId, attempt) evidence := hok
      obtain ⟨id, hid⟩ := (Reachable.evidence_noted hfresh h).2 hev
      obtain ⟨e, he, hkey, heq⟩ := hev
      refine Bool.and_eq_true_iff.mpr ⟨List.any_eq_true.mpr ⟨e, he, ?_⟩,
        List.any_eq_true.mpr ⟨_, hid, ?_⟩⟩
      · simp [hkey, heq]
      · simp
    | _ => trivial
  | _ => trivial

theorem SendLogInv.of_fresh (h : w₀.Fresh net) : SendLogInv owner w₀ [] where
  attempts := by constructor <;> simp [h.executions]
  known := nofun
  reserver := nofun
  one := nofun
  holder := fun he => by simp [h.executions] at he
  handed := nofun
  proper := fun newer older _ _ _ heq => by simp at heq

theorem Recorded.proper (law : net.Lawful) (hfresh : w₀.Fresh net) {c : SystemConf} {log : SendLog}
    (h : Recorded (machine net) (body net cfg) (holderRuns owner) SendLog.note w₀ [] c log) :
    log.Proper owner := by
  have h0 : (sending owner).inv (w₀, []) := SendLogInv.of_fresh hfresh
  have hinv := Rely.reach (G := sendGuard owner) (K := fun _ op x => op.Ready x.1)
    (sending_kept owner) (fun hr hp => Reachable.ready law hfresh hr.unrecorded hp) h0
    (fun {d pid req} hr hnone hspawn _ => body_sends hspawn fun k hk =>
      recorded_started hr hk hnone) h.product
  exact hinv.1.proper

end Runs

/-! ## Transactions under way -/

/-- The transaction can still be included: no node refused it, its expiration
block is yet to come, and the account has not left the state it starts from. -/
def World.underWay (w : World) (t : SentTransaction) : Bool :=
  decide (t.key ∉ w.ghost.rejected ∧ w.chain.tip < t.evidence.expirationBlock ∧
    t.evidence.baseCommitment ∉ w.chain.history.tail)

/-- What holds of evidence in grounded runs. -/
structure GroundInv (net : Network) (w : World) : Prop where
  commits : CommitInv net w
  grounded : ∀ {k evidence}, w.db.Evidenced k evidence → w.grounded evidence = true
  step : ∀ {k evidence}, w.db.Evidenced k evidence →
    net.Step evidence.baseCommitment evidence.expectedCommitment

section UnderWay
variable {net : Network} {cfg : Config} {pid : Nat} {op : Op} {ch : Choice} {w w' w₀ : World}

theorem GroundInv.of_exec (law : net.Lawful) (hi : GroundInv net w) {r : Res op}
    (hx : exec pid op ch w = some (r, w')) (hfits : op.Fits net cfg)
    (hguard : groundedRuns.call pid op ch w = true) : GroundInv net w' := by
  have heff := (exec_effect hx).2
  obtain ⟨hground, hstores⟩ := Bool.and_eq_true_iff.mp hguard
  have hattempts := hi.commits.attempts
  refine ⟨hi.commits.of_effect law.toCoherent heff hfits (RunGuard.calls_ok hstores hx),
    fun {k evidence} hev => ?_, fun {k evidence} hev => ?_⟩
  · rw [World.grounded, heff.chain_eq]
    rcases heff.evidenced_back hattempts hev with hev | ⟨a, rfl, _, _, rfl⟩
    · exact hi.grounded hev
    · exact hground
  · rcases heff.evidenced_back hattempts hev with hev | ⟨a, rfl, had, _, rfl⟩
    · exact hi.step hev
    · obtain ⟨_, ⟨_, new, hnew, hleads⟩, hexpected⟩ := hfits
      rw [hnew] at hexpected
      cases hexpected
      rw [had.describes.2]
      exact hleads.step

theorem GroundInv.of_act (law : net.Lawful) (hi : GroundInv net w) (h : ActEffect net w w') :
    GroundInv net w' where
  commits := hi.commits.of_act law.toCoherent h
  grounded := fun hev => (Chain.Extends.of_act h).onChainBy_mono (hi.grounded (h.db ▸ hev))
  step := fun hev => hi.step (h.db ▸ hev)

theorem Reachable.groundInv (law : net.Lawful) (hfresh : w₀.Fresh net) {c : SystemConf}
    (h : Reachable net cfg groundedRuns w₀ c) : GroundInv net c.world := by
  have hnone : ∀ {k evidence}, ¬w₀.db.Evidenced k evidence := by
    rintro k evidence ⟨e, he, _⟩
    simp [hfresh.executions] at he
  exact Reach.induct (K := fun _ op _ => op.Fits net cfg) (I := GroundInv net)
    (fun hr hp => hr.calls (fun req _ _ => body_calls net cfg req) hp)
    ⟨.of_fresh hfresh, fun hev => absurd hev hnone, fun hev => absurd hev hnone⟩
    (fun hfits hguard hx hi => hi.of_exec law hx hfits hguard)
    (fun _ hact hi => hi.of_act law (act_effect hact)) h

/-- A transaction under way belongs to an attempt without an outcome. -/
theorem SendInv.active_of_underWay {law : net.Lawful} (hs : SendInv law w) (hg : GroundInv net w)
    {e : ExecutionRecord} {t : SentTransaction} (he : e ∈ w.db.executions) (hkey : e.key = t.key)
    (hev : e.evidence = some t.evidence) (ht : w.underWay t = true) : e.outcome = none := by
  obtain ⟨hrejected, htime, hbase⟩ := of_decide_eq_true ht
  have hevidenced : w.db.Evidenced e.key t.evidence := ⟨e, he, rfl, hev⟩
  have hgrounded := hg.grounded hevidenced
  have hmem : t.evidence.baseCommitment ∈ w.chain.history := Chain.mem_of_onChainBy hgrounded
  have hleft : ¬law.rank t.evidence.baseCommitment < law.rank w.chain.head :=
    fun hlt => hbase (Chain.mem_tail law hmem hlt)
  cases hout : e.outcome with
  | none => rfl
  | some outcome =>
    cases outcome with
    | failed code =>
      rcases (hs.failed he hout hev hgrounded).closed with hin | hexpired | hlt
      · exact absurd (hkey ▸ hin) hrejected
      · omega
      · exact absurd hlt hleft
    | committed =>
      -- the account has reached what the transaction leads to
      obtain ⟨evidence, hev', hexpected, _⟩ := hg.commits.committed he hout
      rw [hev] at hev'
      cases hev'
      have hlt := law.rank_lt (hg.step hevidenced)
      exact absurd (hlt.trans_le (hs.chain.rank_le_head law hexpected)) hleft

theorem Reachable.one_underWay (law : net.Lawful) (hfresh : w₀.Fresh net) {c : SystemConf}
    (h : Reachable net cfg groundedRuns w₀ c) {t t' : SentTransaction} (ht : t ∈ c.world.ghost.sent)
    (ht' : t' ∈ c.world.ghost.sent) (hopen : c.world.underWay t = true)
    (hopen' : c.world.underWay t' = true) : t.key = t'.key := by
  have hs := Reachable.sendInv law hfresh h
  have hg := Reachable.groundInv law hfresh h
  obtain ⟨e, he, hkey, hev⟩ := hs.sent ht
  obtain ⟨e', he', hkey', hev'⟩ := hs.sent ht'
  have hactive := hs.attempts.active_eq he (hs.active_of_underWay hg he hkey hev hopen)
  have hactive' := hs.attempts.active_eq he' (hs.active_of_underWay hg he' hkey' hev' hopen')
  rw [← hkey, ← hkey', Option.some.inj (hactive.symm.trans hactive')]

end UnderWay

/-- In every run of any requests, crashes, lease losses and takeovers, every
transaction is handed over at most once, after its evidence and candidate, by
the worker whose claim to send found the reservation its own. And where every
admitted transaction's base was on chain at the block it executed against, and
stored commitments are on chain, at most one attempt is under way. -/
theorem sent_once_after_evidence (net : Network) (law : net.Lawful) (cfg : Config) (w₀ : World)
    (hfresh : w₀.Fresh net) (owner : String → Option Nat) :
    (∀ c log, Recorded (machine net) (body net cfg) (holderRuns owner) SendLog.note w₀ [] c log →
      log.Proper owner) ∧
    ∀ c, Reachable net cfg groundedRuns w₀ c → ∀ t ∈ c.world.ghost.sent,
      ∀ t' ∈ c.world.ghost.sent, c.world.underWay t = true → c.world.underWay t' = true →
        t.key = t'.key :=
  ⟨fun _ _ h => Recorded.proper law hfresh h,
    fun _ h _ ht _ ht' hopen hopen' => Reachable.one_underWay law hfresh h ht ht' hopen hopen'⟩

/-- The requests of `Demo` that execute, by their holder ids. -/
def Demo.owner (worker second : Nat) (holderId : String) : Option Nat :=
  if holderId = "worker" then some worker
  else if holderId = "second worker" then some second
  else none

/-- An execution that is sent. -/
theorem sent_once_after_evidence_sent :
    (∃ c log, Recorded (machine (.letters 0)) (body (.letters 0) Demo.config)
        (holderRuns (Demo.owner 1 2)) SendLog.note (Demo.world 0) [] c log ∧
      .handed 1 ("t", 1) true ∈ log ∧ log.Proper (Demo.owner 1 2)) ∧
    ∃ c, Reachable (.letters 0) Demo.config groundedRuns (Demo.world 0) c ∧
      ∃ t ∈ c.world.ghost.sent, c.world.underWay t = true ∧
        ∀ t' ∈ c.world.ghost.sent, c.world.underWay t' = true → t.key = t'.key := by
  have hmain := sent_once_after_evidence _ (Network.lettersLawful 0) Demo.config _
    (Demo.fresh_world 0) (Demo.owner 1 2)
  constructor
  · have hrun : (runRecorded (machine (.letters 0)) (body (.letters 0) Demo.config)
        (holderRuns (Demo.owner 1 2)) SendLog.note (.start (Demo.world 0)) []
        (Demo.executing 64 50)).any (fun x => decide (.handed 1 ("t", 1) true ∈ x.2)) = true := by
      decide +kernel
    obtain ⟨⟨c, log⟩, hc, htest⟩ := (Option.any_eq_true ..).mp hrun
    have hrec := Recorded.init.runRecorded hc
    exact ⟨c, log, hrec, of_decide_eq_true htest, hmain.1 c log hrec⟩
  · obtain ⟨c, hc, htest⟩ := Demo.reachable_after 0 groundedRuns (Demo.world 0)
      (Demo.executing 64 50) (fun c : SystemConf => c.world.ghost.sent.any c.world.underWay)
      (by decide +kernel)
    obtain ⟨t, ht, hopen⟩ := List.any_eq_true.mp htest
    exact ⟨c, hc, t, ht, hopen, fun t' ht' hopen' => hmain.2 c hc t ht t' ht' hopen hopen'⟩

/-- After the letter `v` was discarded, a second worker executes and sends the
letter `w` on `stu`. -/
def Demo.sentTwice : List (Event Request Choice Act) :=
  Demo.discarded ++ .env (.tick 1) ::
    .spawn 4 (.submitProposal ⟨"w", Demo.delta 1 "stu" "w"⟩) :: Demo.calls 4 2 3 ++
    .spawn 5 (.execute { Demo.third with
      proposalId := "w", summaryPayload := "w", holderId := "second worker" }) :: Demo.calls 5 64 3

theorem two_transactions_sendable :
    ¬∀ c, Reachable (.letters 0) Demo.config (holderRuns (Demo.owner 2 5)) Demo.unconfigured c →
      ∀ t ∈ c.world.ghost.sent, ∀ t' ∈ c.world.ghost.sent, c.world.underWay t = true →
        c.world.underWay t' = true → t.key = t'.key := by
  intro hall
  obtain ⟨c, hc, htest⟩ := Demo.reachable_after 0 (holderRuns (Demo.owner 2 5)) Demo.unconfigured
    Demo.sentTwice (fun c : SystemConf => c.world.ghost.sent.any (fun t =>
      c.world.ghost.sent.any (fun t' => c.world.underWay t && c.world.underWay t' &&
        t.key != t'.key))) (by decide +kernel)
  obtain ⟨t, ht, htest⟩ := List.any_eq_true.mp htest
  obtain ⟨t', ht', htest⟩ := List.any_eq_true.mp htest
  obtain ⟨hopen, hkey⟩ := Bool.and_eq_true_iff.mp htest
  obtain ⟨hopen, hopen'⟩ := Bool.and_eq_true_iff.mp hopen
  have hsame := hall c hc t ht t' ht' hopen hopen'
  simp [hsame] at hkey

end Guardian
