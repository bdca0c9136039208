import Guardian.Safety.Admission
import Guardian.Safety.Committed

/- The queue of a reserved account. While an execution is active no client delta
   is queued; once it is past its boundary the queue is its own candidate alone;
   and the transaction that takes this candidate out of the queue ends the
   execution.

   Five places protect the candidate: the reservation check of a submission, the
   guards of abandon, discard and status updates, the refusal to restore an
   archived row over a candidate, the settlement inside a promotion, and the
   deletion inside a resolution. What is missing is a check that a promotion
   flips the candidate its pass verified (`promotion_leaves_reservation`). -/
namespace Guardian

open Interleaving

/-- The queue is one row, and carries what the evidence says. -/
structure Db.OwnQueue (db : Db) (evidence : SubmissionEvidence) (row : DeltaRow) : Prop where
  queue : db.candidates = [row]
  nonce : row.delta.nonce = evidence.candidateNonce
  base : row.delta.prevCommitment = evidence.baseCommitment
  post : row.delta.newCommitment = some evidence.expectedCommitment

/-- Every active execution past its boundary owns the queue. -/
def Db.QueueOwned (db : Db) : Prop :=
  ∀ e ∈ db.executions, e.isActive = true → ∀ evidence, e.evidence = some evidence →
    ∃ row, db.OwnQueue evidence row

/-- A promotion of a queued row finds an execution's candidate with the post
commitment it verified. -/
def Op.findsOwnCandidate (w : World) : Op → Bool
  | .commit (.promoteCandidate p) => (w.db.rowAt p.delta.nonce).all (fun r =>
      decide (p.source = .candidate → (w.db.owningExecution p.delta.nonce).isSome = true →
        r.delta.newCommitment = p.delta.newCommitment))
  | _ => true

/-- Runs in which every promotion does. -/
def reservedRuns : RunGuard where
  spawn := fun _ _ => true
  call := fun _ op _ w => op.findsOwnCandidate w
  act := fun _ _ => true

theorem Table.select_eq_singleton {α κ : Type} [LinearOrder κ] {key : α → κ} {t : Table key}
    {p : α → Bool} {a : α} (ha : a ∈ t.select p) (hall : ∀ b ∈ t.select p, b = a) :
    t.select p = [a] := by
  have hsorted := Table.sorted_select t p
  cases hl : t.select p with
  | nil => rw [hl] at ha; cases ha
  | cons x rest =>
    rw [hl] at hall hsorted
    cases rest with
    | nil => rw [hall x List.mem_cons_self]
    | cons y rest =>
      have hlt := (List.pairwise_cons.mp hsorted).1 y List.mem_cons_self
      rw [hall x List.mem_cons_self, hall y (.tail _ List.mem_cons_self)] at hlt
      exact absurd hlt (lt_irrefl _)

section Step
variable {net : Network} {cfg : Config} {pid : Nat} {op : Op} {w w' : World}
  {e : ExecutionRecord} {evidence : SubmissionEvidence} {row : DeltaRow}

/-- What is said of an attempt that stays active. -/
def Db.StaysActive (e : ExecutionRecord) (db' : Db) : Prop :=
  ∃ e' ∈ db'.executions, e'.key = e.key ∧ e'.isActive = true

theorem owning_of_active (he : w.db.activeExecution = some e) (hev : e.evidence = some evidence) :
    w.db.owningExecution evidence.candidateNonce = some e := by
  have hlive := (Db.activeExecution_eq_some he).2
  simp [Db.owningExecution, he, ExecutionRecord.ownsCandidate, hlive, hev]

/-- While an attempt stays active, a call flips no candidate of its. -/
theorem flip_settles (hi : w.db.AttemptInv) (hi' : w'.db.AttemptInv) {p : CandidatePromotion}
    (hfits : Op.Fits net cfg (.commit (.promoteCandidate p)))
    (hfinds : Op.findsOwnCandidate w (.commit (.promoteCandidate p)) = true)
    (hp : Db.Promoted p w.db w'.db) (he : w.db.activeExecution = some e)
    (hev : e.evidence = some evidence) (hq : w.db.OwnQueue evidence row)
    (hrow : row ∈ w.db.deltas) (hc : row.delta.status.isCandidate = true)
    (hn : row.delta.nonce = p.delta.nonce) (hm : p.source.matches row.delta.status = true) :
    ¬Db.StaysActive e w'.db := by
  rintro ⟨e', he', hkey, hactive⟩
  have hsource : p.source = .candidate := by
    cases hs : p.source <;> rw [hs] at hm <;>
      cases hst : row.delta.status <;> rw [hst] at hm hc <;>
        first | rfl | (cases hc; done) | cases hm
  have howner : w.db.owningExecution p.delta.nonce = some e := by
    rw [← hn, hq.nonce]
    exact owning_of_active he hev
  have hnew : row.delta.newCommitment = p.delta.newCommitment := by
    rw [Op.findsOwnCandidate, Db.rowAt_eq_some.mpr ⟨hrow, hn⟩] at hfinds
    exact of_decide_eq_true hfinds hsource (by rw [howner]; rfl)
  have hreached : evidence.expectedCommitment = p.state.commitment := by
    rw [hq.post, hfits.canonical.2] at hnew
    exact Option.some.inj hnew
  have hsame : eqIgnoreAsciiCase evidence.expectedCommitment p.state.commitment = true := by
    rw [hreached]
    simp [eqIgnoreAsciiCase]
  obtain ⟨e₀, _, he₀, _, _, _, _, hex⟩ := (hp.commits howner hev hsame).settles
  rw [he] at he₀
  cases he₀
  -- the settled record is the only one under this key
  have hmem := (Db.activeExecution_eq_some he).1
  have hsettled : e.settleAs .committed p.now ∈ w'.db.executions := by
    rw [hex, hi.mem_update hmem]
    exact .inl rfl
  rw [hi'.unique he' hsettled hkey, hi'.active_iff hsettled] at hactive
  cases hactive

/-- The queue stays the attempt's own while it is active. -/
theorem ownQueue_kept (hi : w.db.AttemptInv) (h : Effect pid w op w') (hfits : op.Fits net cfg)
    (hfinds : op.findsOwnCandidate w = true) (he : w.db.activeExecution = some e)
    (hev : e.evidence = some evidence) (hq : w.db.OwnQueue evidence row)
    (hstays : Db.StaysActive e w'.db) :
    ∃ row', w'.db.OwnQueue evidence row' ∧ row'.id = row.id := by
  have hi' : w'.db.AttemptInv := hi.of_step (h.attempts hi)
  have hmem : row ∈ w.db.candidates := by rw [hq.queue]; exact List.mem_cons_self
  obtain ⟨hrow, hc⟩ := Table.mem_select.mp hmem
  have howned : w.db.owningExecution row.delta.nonce ≠ none := by
    rw [hq.nonce, owning_of_active he hev]
    simp
  have hresolved : ∀ resolution crossed, op = .commit (.resolveExecution resolution crossed) →
      ¬w.db.Resolved resolution crossed w'.db := by
    intro resolution crossed _ hres
    obtain ⟨e', he', _, hactive⟩ := hstays
    rw [hi'.active_iff he'] at hactive
    exact hres.settles hi he' (by simpa using hactive)
  obtain ⟨r', hr', hid, hsame, hc'⟩ | ⟨p, rfl, hp, hn, hm, _⟩ := owned_to h hrow hc howned hresolved
  swap
  · exact absurd hstays (flip_settles hi hi' hfits hfinds hp he hev hq hrow hc hn hm)
  refine ⟨r', ⟨?_, hsame.nonce.trans hq.nonce, hsame.prevCommitment.trans hq.base,
    hsame.newCommitment.trans hq.post⟩, hid⟩
  refine Table.select_eq_singleton (Table.mem_select.mpr ⟨hr', hc'⟩) fun x hx => ?_
  obtain ⟨hx, hxc⟩ := Table.mem_select.mp hx
  obtain ⟨x₀, hx₀, hx₀c, _, hx₀same⟩ | ⟨delta, hqueued, _⟩ := h.candidate_cases hfits hx hxc
  · have hx₀mem : x₀ ∈ w.db.candidates := Table.mem_select.mpr ⟨hx₀, hx₀c⟩
    rw [hq.queue, List.mem_singleton] at hx₀mem
    subst hx₀mem
    exact Db.eq_of_nonce hx hr' (hx₀same.nonce.trans hsame.nonce.symm)
  · -- nothing is queued behind an active execution's candidate
    cases hqueued with
    | submitted hs =>
      rw [hs.inactive] at he
      cases he
    | admitted had =>
      rw [Db.hasCandidate_eq_false.mp had.idle row hrow] at hc
      cases hc

/-- An admission makes the queue its own. -/
theorem ownQueue_admitted {a : CandidateAdmission}
    (hfits : Op.Fits net cfg (.commit (.admitExecutionCandidate a)))
    (had : Db.Admitted a w.db w'.db) : w'.db.OwnQueue a.evidence ⟨w.db.nextId, a.delta⟩ := by
  refine ⟨?_, had.describes.1.symm, had.describes.2.symm, hfits.2.2⟩
  have hmem : ⟨w.db.nextId, a.delta⟩ ∈ w'.db.deltas := had.inserts.mem.mpr (.inl rfl)
  obtain ⟨t, ht⟩ := hfits.2.1.1
  have hc : a.delta.status.isCandidate = true := by rw [ht]; rfl
  refine Table.select_eq_singleton (Table.mem_select.mpr ⟨hmem, hc⟩) fun x hx => ?_
  obtain ⟨hx, hxc⟩ := Table.mem_select.mp hx
  rcases had.inserts.mem.mp hx with rfl | ⟨hx, _⟩
  · rfl
  · rw [Db.hasCandidate_eq_false.mp had.idle x hx] at hxc
    cases hxc

theorem QueueOwned.of_effect (hi : w.db.AttemptInv) (hown : w.db.QueueOwned)
    (h : Effect pid w op w') (hfits : op.Fits net cfg) (hfinds : op.findsOwnCandidate w = true) :
    w'.db.QueueOwned := by
  have hi' : w'.db.AttemptInv := hi.of_step (h.attempts hi)
  intro e' he' hactive evidence hev'
  -- what an attempt that was past its boundary before owned, it still owns
  have hkept : ∀ {e}, e ∈ w.db.executions → e.outcome = none → e.evidence = some evidence →
      e'.key = e.key → ∃ row, w'.db.OwnQueue evidence row := by
    intro e he hout hev hkey
    have ha := hi.active_eq he hout
    obtain ⟨row, hq⟩ := hown e he (Db.activeExecution_eq_some ha).2 evidence hev
    obtain ⟨row', hq', _⟩ := ownQueue_kept hi h hfits hfinds ha hev hq ⟨e', he', hkey, hactive⟩
    exact ⟨row', hq'⟩
  have hout' : e'.outcome = none := by
    rw [hi'.active_iff he'] at hactive
    simpa using hactive
  obtain he | ⟨hnone, _⟩ | ⟨e, f, he, hout, htouch, rfl⟩ := h.attempt_back hi he'
  · exact hkept he hout' hev' rfl
  · rw [hnone] at hev'
    cases hev'
  have hkey := htouch.key_eq
  cases htouch with
  | renewed keeps => exact hkept he hout ((keeps e).1 ▸ hev') hkey
  | admitted hcall had _ _ =>
    subst hcall
    cases hev'
    exact ⟨_, ownQueue_admitted hfits had⟩
  | committed | settled | failed => cases hout'

end Step

section Runs
variable {net : Network} {cfg : Config} {w₀ : World} {c : SystemConf}

theorem queueOwned_of_reachable (hfresh : w₀.Fresh net) (h : Reachable net cfg reservedRuns w₀ c) :
    c.world.db.AttemptInv ∧ c.world.db.QueueOwned := by
  have h0 : w₀.db.AttemptInv ∧ w₀.db.QueueOwned := by
    refine ⟨by constructor <;> simp [hfresh.executions], fun e he => ?_⟩
    rw [hfresh.executions] at he
    cases he
  refine Reach.induct (I := fun w => w.db.AttemptInv ∧ w.db.QueueOwned)
    (K := fun _ op _ => op.Fits net cfg)
    (fun hr hp => hr.calls (fun req _ _ => body_calls net cfg req) hp) h0
    (fun hfits hfinds hx hi => ?_) (fun _ hact hi => ?_) h
  · have heff := (exec_effect hx).2
    exact ⟨hi.1.of_step (heff.attempts hi.1), QueueOwned.of_effect hi.1 hi.2 heff hfits hfinds⟩
  · rwa [(act_effect hact).db]

/-- A step from a reserved account acknowledges nothing, and an attempt that
owned the queue owns it still or has ended. -/
structure World.KeepsReserved (w w' : World) : Prop where
  acked : w.db.activeExecution ≠ none → w'.ghost.acked = w.ghost.acked
  owned : ∀ e ∈ w.db.executions, e.isActive = true → ∀ evidence, e.evidence = some evidence →
    ∀ row, w.db.OwnQueue evidence row → ∃ e' ∈ w'.db.executions, e'.key = e.key ∧
      e'.evidence = some evidence ∧
      (e'.isActive = true → ∃ row', w'.db.OwnQueue evidence row' ∧ row'.id = row.id)

theorem World.KeepsReserved.of_same {w w' : World} (hdb : w'.db = w.db)
    (hacked : w'.ghost.acked = w.ghost.acked) : w.KeepsReserved w' where
  acked := fun _ => hacked
  owned := fun e he _ _ hev row hq =>
    ⟨e, hdb ▸ he, rfl, hev, fun _ => ⟨row, hdb ▸ hq, rfl⟩⟩

theorem Effect.keepsReserved {pid : Nat} {op : Op} {w w' : World} (hi : w.db.AttemptInv)
    (h : Effect pid w op w') (hfits : op.Fits net cfg) (hfinds : op.findsOwnCandidate w = true) :
    w.KeepsReserved w' where
  acked := by
    intro hactive
    obtain heq | ⟨delta, hq, hack⟩ := h.acked_cases
    · exact heq
    cases hq with
    | submitted hs => exact absurd hs.inactive hactive
    | admitted had => cases h <;> rfl
  owned := by
    intro e he hactive evidence hev row hq
    have hout : e.outcome = none := by
      rw [hi.active_iff he] at hactive
      simpa using hactive
    obtain ⟨e', he', hkey, hev'⟩ := h.attempt_to hi he
    refine ⟨e', he', hkey, (hev' (by rw [hev]; simp)).trans hev, fun hstays => ?_⟩
    exact ownQueue_kept hi h hfits hfinds (hi.active_eq he hout) hev hq ⟨e', he', hkey, hstays⟩

/-- In every state reached an active execution past its boundary has exactly one
queued candidate, its own, and from it every step keeps that or ends the
execution; while an execution is active no client candidate is admitted. -/
theorem reservation_owns_queue (net : Network) (cfg : Config) (w₀ : World) (hfresh : w₀.Fresh net)
    (c : SystemConf) (h : Reachable net cfg reservedRuns w₀ c) :
    c.world.db.QueueOwned ∧
    ∀ e c', step (machine net) (body net cfg) reservedRuns c e = some c' →
      c.world.KeepsReserved c'.world := by
  obtain ⟨hi, hown⟩ := queueOwned_of_reachable hfresh h
  refine ⟨hown, fun e c' hs => ?_⟩
  obtain ⟨pid, req, _, _, rfl⟩ | ⟨pid, ch, req, op, k, r, w, hp, hfinds, hx, rfl⟩ |
    ⟨a, w, _, hw, rfl⟩ := step_cases hs
  · exact .of_same rfl rfl
  · exact (exec_effect hx).2.keepsReserved hi (h.calls (fun req _ _ => body_calls net cfg req) hp)
      hfinds
  · have heff := act_effect hw
    exact .of_same heff.db heff.acked

end Runs

/-- An execution past its boundary, whose promotion is about to commit. -/
theorem reservation_owns_queue_sent :
    ∃ c, Reachable (.letters 0) Demo.config reservedRuns (Demo.world 0) c ∧
      (∃ e ∈ c.world.db.executions, e.isActive = true ∧ e.evidence ≠ none) ∧
      c.world.db.QueueOwned ∧
      ∀ e c', step (machine (.letters 0)) (body (.letters 0) Demo.config) reservedRuns c e = some c' →
        c.world.KeepsReserved c'.world := by
  obtain ⟨c, hc, htest⟩ := Demo.reachable_after 0 reservedRuns (Demo.world 0)
    (Demo.executing 64 50 ++ [.env (.mine [⟨"s", "t", some ("t", 1)⟩])] ++ Demo.acquires 2 "a" ++
      .spawn 3 (.fullPass (Demo.fence "a" 0)) :: Demo.calls 3 8 2)
    (fun c : SystemConf => c.world.db.executions.any (fun e =>
      decide (e.isActive = true ∧ e.evidence ≠ none))) (by decide +kernel)
  obtain ⟨e, he, hpast⟩ := List.any_eq_true.mp htest
  exact ⟨c, hc, ⟨e, he, of_decide_eq_true hpast⟩,
    reservation_owns_queue _ Demo.config _ (Demo.fresh_world 0) c hc⟩

/-- A second execution, of the letter `u` on `s`. -/
def Demo.second : RequestExecutionParams :=
  { Demo.execution 50 with proposalId := "u", summaryPayload := "u" }

/-- A pass reads the candidate of an execution the node then refuses; a second
one is admitted at its nonce; the first one's delta lands by other means, and the
pass promotes it over the second one's row. -/
def Demo.flipped : List (Event Request Choice Act) :=
  Demo.executing 63 50 ++ Demo.acquires 2 "a" ++
    .spawn 3 (.fullPass (Demo.fence "a" 0)) :: Demo.calls 3 5 1 ++
    .run 1 { submit := .rejected } :: Demo.calls 1 3 1 ++
    .spawn 4 (.submitProposal ⟨"u", Demo.delta 1 "s" "u"⟩) :: Demo.calls 4 2 1 ++
    .spawn 5 (.execute Demo.second) :: Demo.calls 5 60 1 ++
    .env (.mine [⟨"s", "t", none⟩]) :: Demo.calls 3 8 2

theorem promotion_leaves_reservation :
    ¬∀ c, Reachable (.letters 0) Demo.config .any (Demo.world 0) c → c.world.db.QueueOwned := by
  intro hall
  obtain ⟨c, hc, htest⟩ := Demo.reachable_after 0 .any (Demo.world 0) Demo.flipped
    (fun c : SystemConf => c.world.db.candidates.isEmpty && c.world.db.executions.any (fun e =>
      decide (e.isActive = true ∧ e.evidence ≠ none))) (by decide +kernel)
  obtain ⟨hempty, hpast⟩ := Bool.and_eq_true_iff.mp htest
  obtain ⟨e, he, hpast⟩ := List.any_eq_true.mp hpast
  obtain ⟨hactive, hev⟩ := of_decide_eq_true hpast
  obtain ⟨evidence, hev⟩ := Option.ne_none_iff_exists'.mp hev
  obtain ⟨row, hq⟩ := hall c hc e he hactive evidence hev
  have hqueue := hq.queue
  rw [List.isEmpty_iff.mp hempty] at hqueue
  cases hqueue

end Guardian
