import Guardian.Safety.PathPromotion

/- A full pass over a chained queue, undisturbed: no other writer, every call
   answered, the lease kept, and every read of the chain served at the same head,
   the post commitment of one of the candidates. Time may pass between calls.

   The pass is followed as a function of the rows (`Reaches`). Its loop promotes
   while the stored state is behind the head: the candidate at the head matches,
   and those before it are landed through a successor. The first candidate past
   the head builds on the stored state and is not landed; every later one finds
   its predecessor queued, and the loop ends there. -/
namespace Guardian

open Interleaving Service

/-! ## Runs of a pass as functions of the rows -/

/-- Between two calls nothing is written, and the lease is kept until `latest`. -/
def undisturbed (fence : LeaseFence) (latest : Time) (w w' : World) : Prop :=
  w'.db = w.db ∧ w'.lock = w.lock ∧ w'.finished = w.finished ∧ w'.clock ≤ latest ∧
    w'.db.leaseFenceIsCurrent fence w'.clock = true

/-- No call fails, and every node has the account at `head`. -/
def answers (head : Commitment) (_op : Op) (ch : Choice) (w : World) : Prop :=
  ch.fault = .none ∧ ch.flag = false ∧ ch.block ≤ w.chain.tip ∧
    w.chain.headAt ch.block = some head

/-- The process can go on, and no transaction is open. -/
def World.Idle (pid : Nat) (w : World) : Prop := pid ∉ w.finished ∧ w.lock = none

section Runs
variable (net : Network) (fence : LeaseFence) (latest : Time) (head : Commitment) (pid : Nat)

/-- Run from these rows, the procedure succeeds, with `Q` of its value, the rows
it leaves and the promotions made. -/
def Reaches {ε α : Type} (x : Proc ε α) (Q : α → Db → PromotionLog → Prop) (db : Db)
    (log : PromotionLog) : Prop :=
  ∀ w, w.Idle pid → w.db = db → Completes (machine net) notePromotion (undisturbed fence latest)
    (answers head) pid x.run
    (fun r w' log' => ∃ a, r = .ok a ∧ w'.Idle pid ∧ Q a w'.db log') w log

variable {net fence latest head pid} {ε α β : Type} {x : Proc ε α}
  {Q Q' : α → Db → PromotionLog → Prop} {db : Db} {log : PromotionLog}

namespace Reaches

theorem pure' {a : α} (h : Q a db log) :
    Reaches net fence latest head pid (pure a : Proc ε α) Q db log := by
  rintro w hidle rfl
  exact ⟨a, rfl, hidle, h⟩

theorem mono (hx : Reaches net fence latest head pid x Q db log)
    (hQ : ∀ a db' log', Q a db' log' → Q' a db' log') :
    Reaches net fence latest head pid x Q' db log := by
  intro w hidle hdb
  refine (hx w hidle hdb).mono ?_
  rintro r w' log' ⟨a, hr, hidle', ha⟩
  exact ⟨a, hr, hidle', hQ a _ _ ha⟩

theorem bind' {f : α → Proc ε β} {R : β → Db → PromotionLog → Prop}
    (hx : Reaches net fence latest head pid x
      (fun a db' log' => Reaches net fence latest head pid (f a) R db' log') db log) :
    Reaches net fence latest head pid (x >>= f) R db log := by
  intro w hidle hdb
  refine Completes.bind' ((hx w hidle hdb).mono ?_)
  rintro r w' log' ⟨a, rfl, hidle', ha⟩
  exact ha w' hidle' rfl

theorem absorb' {ε' : Type} {R : Except ε α → Db → PromotionLog → Prop}
    (hx : Reaches net fence latest head pid x (fun a => R (.ok a)) db log) :
    Reaches net fence latest head pid (absorb x : Proc ε' _) R db log := by
  intro w hidle hdb
  refine Completes.bind' ((hx w hidle hdb).mono ?_)
  rintro r w' log' ⟨a, rfl, hidle', ha⟩
  exact ⟨_, rfl, hidle', ha⟩

theorem orFail' {y : Proc ε (Option α)} {e : ε}
    (hy : Reaches net fence latest head pid y (fun o db' log' => ∃ a, o = some a ∧ Q a db' log') db
      log) : Reaches net fence latest head pid (orFail y e) Q db log := by
  refine bind' (hy.mono ?_)
  rintro _ db' log' ⟨a, rfl, ha⟩
  exact pure' ha

/-- A call that leaves the rows alone. -/
theorem call_of {o : Op} {Q : Res o → Db → PromotionLog → Prop}
    (h : ∀ w ch, pid ∉ w.finished → w.lock = none → w.db = db → w.clock ≤ latest →
      answers head o ch w → ∃ r w', exec pid o ch w = some (r, w') ∧ w'.finished = w.finished ∧
        w'.lock = none ∧ Q r w'.db (notePromotion pid o ch w log)) :
    Reaches net fence latest head pid (call o : Proc ε _) Q db log := by
  rintro w ⟨hlive, hlock⟩ rfl w₁ ch ⟨hdb, hlock₁, hfinished, hlatest, -⟩ hfair
  obtain ⟨r, w', hx, hfinished', hlock', hQ⟩ := h w₁ ch (hfinished ▸ hlive) (hlock₁.trans hlock) hdb
    hlatest hfair
  refine ⟨r, w', hx, r, rfl, ⟨?_, hlock'⟩, hQ⟩
  rw [hfinished', hfinished]
  exact hlive

theorem query' {q : Query} {Q : Option q.Answer → Db → PromotionLog → Prop}
    (h : ∀ rows, Q (some (q.run db rows)) db log) :
    Reaches net fence latest head pid (query q : Proc ε _) Q db log := by
  refine call_of fun w ch hlive hlock hdb _ hfair => ?_
  refine ⟨some (q.run w.db ch.rows),
    { w with ghost := w.ghost.noteHeld pid (q.held (q.run w.db ch.rows)) }, ?_, rfl, hlock, ?_⟩
  · unfold exec
    rw [if_neg hlive, hfair.1]
  · subst hdb
    exact h ch.rows

theorem now' {Q : Time → Db → PromotionLog → Prop} (h : ∀ t ≤ latest, Q t db log) :
    Reaches net fence latest head pid (now : Proc ε _) Q db log := by
  refine call_of fun w ch hlive hlock hdb hlatest _ => ?_
  refine ⟨w.clock, w, ?_, rfl, hlock, ?_⟩
  · unfold exec
    rw [if_neg hlive]
  · subst hdb
    exact h w.clock hlatest

theorem flag' {Q : Bool → Db → PromotionLog → Prop} (h : Q false db log) :
    Reaches net fence latest head pid (flag : Proc ε _) Q db log := by
  refine call_of fun w ch hlive hlock hdb _ hfair => ?_
  refine ⟨ch.flag, w, ?_, rfl, hlock, ?_⟩
  · unfold exec
    rw [if_neg hlive]
  · subst hdb
    rw [hfair.2.1]
    exact h

/-- What a node that has the account at `head` answers. -/
def verdict (head c : Commitment) : StateVerification := if c = head then .match else .mismatch head

theorem verify' {c : Commitment} {mode : RpcReadMode}
    {Q : Option StateVerification → Db → PromotionLog → Prop} (h : Q (some (verdict head c)) db log) :
    Reaches net fence latest head pid (node (.verifyCommitment c mode) : Proc ε _) Q db log := by
  refine call_of fun w ch hlive hlock hdb _ hfair => ?_
  obtain ⟨hfault, -, hblock, hhead⟩ := hfair
  have hpossible : NodeCall.possible w.chain ch (.verifyCommitment c mode) = true :=
    decide_eq_true hblock
  refine ⟨some (verdict head c),
    { w with ghost := NodeCall.note w.chain ch w.ghost (.verifyCommitment c mode) }, ?_, rfl, hlock,
    ?_⟩
  · unfold exec
    rw [if_neg hlive]
    dsimp only
    rw [if_pos hpossible, if_pos hfault]
    simp only [NodeCall.run, Chain.verifyCommitment, hhead, verdict]
  · subst hdb
    exact h

/-- A statement that may change what no pass depends on. -/
theorem write' {s : Stmt} {Q : Option s.Answer → Db → PromotionLog → Prop}
    (hplain : ∀ {r db'}, s.run db = some (r, db') → db.Plain db')
    (h : ∀ r db', db.Plain db' → Q r db' log) :
    Reaches net fence latest head pid (write s : Proc ε _) Q db log := by
  refine call_of fun w ch hlive hlock hdb _ hfair => ?_
  subst hdb
  cases hrun : s.run w.db with
  | none =>
    refine ⟨none, w, ?_, rfl, hlock, h _ _ (.refl _)⟩
    unfold exec
    rw [if_neg hlive]
    dsimp only
    rw [hlock, hrun]
    simp only [Option.isSome_none, Bool.and_false, Bool.false_eq_true, if_false]
    cases ch.fault <;> rfl
  | some answer =>
    obtain ⟨r, db'⟩ := answer
    refine ⟨some r, { w with db := db', ghost := s.note pid w.chain w.db w.ghost r }, ?_, rfl, hlock,
      h _ _ (hplain hrun)⟩
    unfold exec
    rw [if_neg hlive]
    dsimp only
    rw [hlock, hrun, hfair.1]
    simp only [Option.isSome_none, Bool.and_false, Bool.false_eq_true, if_false, if_true]

/-- A fenced transaction, under a lease that is kept. -/
theorem fenced' {tx : Tx} {r : tx.Answer} {db' : Db}
    {Q : Option tx.Answer → Db → PromotionLog → Prop} (hrun : tx.run true db = some (r, db'))
    (h : ∀ w ch, w.db = db → w.lock = some (pid, true) → ch.fault = .none →
      Q (some r) db' (notePromotion pid (.commit tx) ch w log)) :
    Reaches net fence latest head pid (fenced fence tx : Proc ε _) Q db log := by
  rintro w ⟨hlive, hlock⟩ rfl w₁ ch ⟨hdb, hlock₁, hfinished, hlatest, hlease⟩ hfair
  have hlive₁ : pid ∉ w₁.finished := hfinished ▸ hlive
  refine ⟨(), { w₁ with lock := some (pid, true) }, ?_, ?_⟩
  · show exec pid (.begin fence) ch w₁ = _
    unfold exec
    rw [if_neg hlive₁]
    dsimp only
    rw [hlock₁.trans hlock, hlease]
  · rintro w₂ ch₂ ⟨hdb₂, hlock₂, hfinished₂, -, -⟩ hfair₂
    have hlive₂ : pid ∉ w₂.finished := by rw [hfinished₂]; exact hlive₁
    have hdb₂ : w₂.db = w.db := hdb₂.trans hdb
    have hlock₂ : w₂.lock = some (pid, true) := hlock₂
    refine ⟨some r, { w₂ with db := db', lock := none, ghost := tx.note w₂.chain w₂.db w₂.ghost r },
      ?_, some r, rfl, ⟨hlive₂, rfl⟩, ?_⟩
    · show exec pid (.commit tx) ch₂ w₂ = _
      unfold exec
      rw [if_neg hlive₂]
      dsimp only
      rw [hlock₂, hfair₂.1]
      dsimp only
      rw [if_pos rfl, hdb₂, hrun]
      rfl
    · exact h w₂ ch₂ hdb₂ hlock₂ hfair₂.1

theorem pullState' {e : ε} {s : StateObject} {Q : StateObject → Db → PromotionLog → Prop}
    (hs : db.state = some s) (h : Q s db log) :
    Reaches net fence latest head pid (pullState e) Q db log := by
  refine bind' (orFail' (query' fun _ => ⟨some s, congrArg some hs, ?_⟩))
  exact pure' h

theorem accountMetadata' {m : AccountMetadata} {Q : AccountMetadata → Db → PromotionLog → Prop}
    (hm : db.metadata = some m) (h : Q m db log) :
    Reaches net fence latest head pid accountMetadata Q db log := by
  refine bind' (orFail' (query' fun _ => ⟨some m, congrArg some hm, ?_⟩))
  exact pure' h

end Reaches
end Runs

/-! ## The rows during a pass -/

/-- The rows of a pass that has promoted `done` and has the candidates `waiting`
left, at the state `base`. -/
structure PassAt (done waiting : List DeltaObject) (base : StateJson) (stored : Commitment)
    (db : Db) : Prop where
  state : ∃ s, db.state = some s ∧ s.stateJson = base ∧ s.commitment = stored
  metadata : ∃ m, db.metadata = some m
  promoted : ∀ d ∈ done, ∃ r t, db.rowAt d.nonce = some r ∧ r.delta = { d with status := .canonical t }
  queued : ∀ d ∈ waiting, ∃ r, db.rowAt d.nonce = some r ∧ r.delta = d
  candidate : ∀ d ∈ waiting, d.status.isCandidate = true
  unowned : ∀ d ∈ waiting, db.owningExecution d.nonce = none

section Rows
variable {db db' : Db} {done waiting : List DeltaObject} {d : DeltaObject} {base : StateJson}
  {stored : Commitment} {p : CandidatePromotion}

theorem PassAt.plain (h : PassAt done waiting base stored db) (hplain : db.Plain db') :
    PassAt done waiting base stored db' := by
  have hrow : ∀ nonce, db'.rowAt nonce = db.rowAt nonce := by
    intro nonce
    rw [Db.rowAt, Db.rowAt, hplain.deltas]
  have howner : ∀ nonce, db'.owningExecution nonce = db.owningExecution nonce := by
    intro nonce
    rw [Db.owningExecution, Db.owningExecution, Db.activeExecution, Db.activeExecution,
      hplain.executions]
  refine ⟨?_, ?_, ?_, ?_, h.candidate, ?_⟩
  · rw [hplain.state]
    exact h.state
  · obtain ⟨m, hm⟩ := h.metadata
    have hmap := hplain.metadata
    rw [hm] at hmap
    obtain ⟨m', hm', -⟩ := Option.map_eq_some_iff.mp hmap
    exact ⟨m', hm'⟩
  · simpa only [hrow] using h.promoted
  · simpa only [hrow] using h.queued
  · simpa only [howner] using h.unowned

/-- A queued candidate on the stored state is promoted. -/
theorem Db.promoteCandidate_applies {m : AccountMetadata} {r : DeltaRow} {s : StateObject}
    (hm : db.metadata = some m) (hsource : p.source = .candidate)
    (hrow : db.rowAt p.delta.nonce = some r) (hc : r.delta.status.isCandidate = true)
    (hs : db.state = some s) (hbase : s.commitment = p.delta.prevCommitment)
    (hun : db.owningExecution p.delta.nonce = none) :
    ∃ db', db.promoteCandidate true p = some (.applied false, db') := by
  have hwrite : db.writeCanonical p = some (db.updateRow p.delta.nonce
      PromotableKind.candidate.matches (fun _ => p.delta.status) (fun _ => p.delta.newCommitment)) := by
    unfold Db.writeCanonical
    rw [hsource, hrow]
    exact if_pos hc
  unfold Db.promoteCandidate
  rw [hm]
  dsimp only
  rw [if_pos rfl, hwrite]
  dsimp only
  have hstate : (db.updateRow p.delta.nonce PromotableKind.candidate.matches
      (fun _ => p.delta.status) (fun _ => p.delta.newCommitment)).state = some s := hs
  rw [hstate]
  dsimp only
  rw [if_pos (.inl hbase)]
  -- The signers are written in between; the executions are those of `db`.
  have hcommit : ∀ db₃ : Db, db₃.executions = db.executions →
      db₃.commitPromotedExecution p.delta.nonce p.state.commitment p.now = some (false, db₃) := by
    intro db₃ heq
    have howner : db₃.owningExecution p.delta.nonce = none := by
      rw [Db.owningExecution, Db.activeExecution, heq]
      exact hun
    rw [Db.commitPromotedExecution, howner]
  split
  · next hnone =>
    rw [hcommit _ (by cases p.newAuth <;> rfl)] at hnone
    cases hnone
  · next settled db₄ hsome =>
    rw [hcommit _ (by cases p.newAuth <;> rfl)] at hsome
    cases hsome
    exact ⟨_, rfl⟩

/-- A row other than the rewritten one stays. -/
theorem Db.Rewrites.rowAt_ne {row row' r : DeltaRow} (h : Db.Rewrites db db' row row') {nonce : Nonce}
    (hne : row.delta.nonce ≠ nonce) (hr : db.rowAt nonce = some r) : db'.rowAt nonce = some r := by
  obtain ⟨hmem, hnonce⟩ := Db.rowAt_eq_some.mp hr
  refine Db.rowAt_eq_some.mpr ⟨h.mem.mpr (.inr ⟨hmem, ?_⟩), hnonce⟩
  rintro rfl
  exact hne hnonce

theorem Db.Rewrites.rowAt_self {row row' : DeltaRow} (h : Db.Rewrites db db' row row')
    (hnonce : row'.delta.nonce = row.delta.nonce) : db'.rowAt row.delta.nonce = some row' :=
  Db.rowAt_eq_some.mpr ⟨h.mem.mpr (.inl rfl), hnonce⟩

theorem nonce_ne (hdistinct : ((done ++ d :: waiting).map (·.nonce)).Nodup) {d' : DeltaObject}
    (hd' : d' ∈ done ∨ d' ∈ waiting) : d.nonce ≠ d'.nonce := by
  intro heq
  rw [List.map_append, List.map_cons, List.nodup_append, List.nodup_cons] at hdistinct
  obtain ⟨-, ⟨hfirst, -⟩, hcross⟩ := hdistinct
  obtain hd' | hd' := hd'
  · exact hcross _ (List.mem_map_of_mem hd') _ List.mem_cons_self heq.symm
  · exact hfirst (heq ▸ List.mem_map_of_mem hd')

/-- A promotion moves the candidate at the front to the promoted ones. -/
theorem PassAt.promote {net : Network} {applied : AppliedState}
    (h : PassAt done (d :: waiting) base stored db)
    (hdistinct : ((done ++ d :: waiting).map (·.nonce)).Nodup)
    (hp : Promotes net d applied .candidate p) (hrecorded : d.newCommitment = some applied.commitment)
    (hpromoted : Db.Promoted p db db') :
    PassAt (done ++ [d]) waiting applied.stateJson applied.commitment db' := by
  obtain ⟨t, hdelta⟩ := hp.delta
  obtain ⟨r, hr, hrd⟩ := h.queued d List.mem_cons_self
  have hother : ∀ {d'}, d' ∈ done ∨ d' ∈ waiting → d.nonce ≠ d'.nonce := nonce_ne hdistinct
  obtain ⟨row, hnonce, hmatched, -, hrewrites⟩ | ⟨hsource, -⟩ := hpromoted.row
  swap
  · rw [hp.source] at hsource
    cases hsource
  have hrow : row.delta.nonce = d.nonce := by rw [hnonce, hdelta]
  have hsame : row = r := by
    have hat : db.rowAt d.nonce = some row := Db.rowAt_eq_some.mpr ⟨hrewrites.mem_row, hrow⟩
    exact Option.some.inj (hat.symm.trans hr)
  have hexecutions : db'.executions = db.executions := by
    obtain hsame | hcommits := hpromoted.executions
    · exact hsame
    · obtain ⟨e, evidence, hactive, hev, hn, -⟩ := hcommits.settles
      have hun := h.unowned d List.mem_cons_self
      have howns : e.ownsCandidate d.nonce = true := by
        have hnonce' : evidence.candidateNonce = d.nonce := by rw [hn, hdelta]
        have hlive : e.isActive = true := List.find?_some hactive
        rw [ExecutionRecord.ownsCandidate, hlive, hev, Option.any_some, hnonce', beq_self_eq_true]
        rfl
      rw [Db.owningExecution, hactive, Option.filter_some, if_pos howns] at hun
      cases hun
  refine ⟨?_, ?_, ?_, ?_, ?_, ?_⟩
  · refine ⟨_, hpromoted.state, ?_, ?_⟩
    · rw [hp.state]
      rfl
    · rw [hp.state]
      rfl
  · obtain ⟨m, -, hm⟩ := hpromoted.metadata
    exact ⟨_, hm⟩
  · intro d' hd'
    obtain hd' | hd' := List.mem_append.mp hd'
    · obtain ⟨r', t', hr', hrd'⟩ := h.promoted d' hd'
      exact ⟨r', t', hrewrites.rowAt_ne (hrow ▸ hother (.inl hd')) hr', hrd'⟩
    · rw [List.mem_singleton.mp hd', ← hrow]
      refine ⟨_, t, hrewrites.rowAt_self rfl, ?_⟩
      show { row.delta with status := p.delta.status, newCommitment := p.delta.newCommitment } = _
      rw [hsame, hrd, hdelta, ← hrecorded]
  · intro d' hd'
    obtain ⟨r', hr', hrd'⟩ := h.queued d' (.tail _ hd')
    exact ⟨r', hrewrites.rowAt_ne (hrow ▸ hother (.inr hd')) hr', hrd'⟩
  · exact fun d' hd' => h.candidate d' (.tail _ hd')
  · intro d' hd'
    rw [Db.owningExecution, Db.activeExecution, hexecutions]
    exact h.unowned d' (.tail _ hd')

end Rows

/-! ## The steps of the pass -/

/-- A candidate was promoted with the state its delta leads to. -/
structure PromotesCandidate (net : Network) (hop : DeltaObject × AppliedState)
    (entry : CandidatePromotion × Db) : Prop where
  promotion : Promotes net hop.1 hop.2 .candidate entry.1
  applied : ∃ db', Db.Promoted entry.1 entry.2 db'

section Pass
variable {net : Network} {cfg : Config} {fence : LeaseFence} {latest : Time} {head : Commitment}
  {pid : Nat} {db : Db} {log : PromotionLog} {done waiting : List DeltaObject} {d : DeltaObject}
  {base : StateJson} {stored : Commitment} {applied : AppliedState}

theorem Db.plain_setReleasedIfState {now : Time} {expected : Commitment} {db' : Db}
    {r : ReleaseTransition} (h : db.setReleasedIfState now expected = some (r, db')) : db.Plain db' := by
  unfold Db.setReleasedIfState at h
  repeat' split at h
  all_goals cases h
  all_goals first
    | exact .refl db
    | exact Db.plain_setMetadata fun _ => ⟨rfl, rfl⟩

theorem reaches_releaseIfGuardianSwitched {m : AccountMetadata} {guardian : Option String}
    {new : Commitment} {Q : Db → PromotionLog → Prop} (hQ : ∀ db', db.Plain db' → Q db' log) :
    Reaches net fence latest head pid (Processor.releaseIfGuardianSwitched cfg m guardian new)
      (fun _ => Q) db log := by
  unfold Processor.releaseIfGuardianSwitched
  split
  · refine .bind' (.now' fun t _ => .bind' (.write' ?_ fun _ db' hplain => .pure' (hQ db' hplain)))
    intro r db' hrun
    exact Db.plain_setReleasedIfState hrun
  · exact .pure' (hQ db (.refl db))

/-- The promotion of a candidate, as the pass builds it. -/
def promotionOf (d : DeltaObject) (applied : AppliedState) (m : AccountMetadata) (now : Time) :
    CandidatePromotion where
  state := ⟨applied.stateJson, applied.commitment, applied.nonce⟩
  delta := { d with newCommitment := some applied.commitment, status := .canonical now }
  newAuth := applied.updatedAuth m.auth
  now := now
  source := .candidate

theorem promotes_promotionOf (net : Network) (d : DeltaObject) (applied : AppliedState)
    (m : AccountMetadata) (now : Time) :
    Promotes net d applied .candidate (promotionOf d applied m now) :=
  ⟨rfl, ⟨now, rfl⟩, rfl, _, rfl⟩

theorem reaches_canonicalizeVerifiedDelta (h : PassAt done (d :: waiting) base stored db)
    (hdistinct : ((done ++ d :: waiting).map (·.nonce)).Nodup) (hprev : d.prevCommitment = stored)
    (hrecorded : d.newCommitment = some applied.commitment) :
    Reaches net fence latest head pid
      (Processor.canonicalizeVerifiedDelta net cfg fence d applied .candidate)
      (fun _ db' log' => PassAt (done ++ [d]) waiting applied.stateJson applied.commitment db' ∧
        ∃ entry, log' = log ++ [entry] ∧ PromotesCandidate net (d, applied) entry) db log := by
  obtain ⟨m, hm⟩ := h.metadata
  obtain ⟨s, hs, -, hstored⟩ := h.state
  obtain ⟨r, hr, hrd⟩ := h.queued d List.mem_cons_self
  have hcandidate : r.delta.status.isCandidate = true := by
    rw [hrd]
    exact h.candidate d List.mem_cons_self
  unfold Processor.canonicalizeVerifiedDelta
  refine .bind' (.accountMetadata' hm (.bind' (.pullState' hs (.bind' (.now' fun now _ => ?_)))))
  have hp := promotes_promotionOf net d applied m now
  obtain ⟨db', hrun⟩ := Db.promoteCandidate_applies (p := promotionOf d applied m now) hm rfl hr
    hcandidate hs (hstored.trans hprev.symm) (h.unowned d List.mem_cons_self)
  refine .bind' (.orFail' (.fenced' hrun fun w ch hdb hlock hfault => ⟨_, rfl, ?_⟩))
  obtain ⟨hnot, -⟩ | ⟨settled, -, hpromoted⟩ := Db.promoteCandidate_cases hrun
  · exact absurd rfl (hnot false)
  have hafter : ∀ db'', db'.Plain db'' →
      PassAt (done ++ [d]) waiting applied.stateJson applied.commitment db'' := fun db'' hplain =>
    (h.promote hdistinct hp hrecorded hpromoted).plain hplain
  have hentry : ∃ entry, notePromotion pid (.commit (.promoteCandidate (promotionOf d applied m now))) ch w log = log ++ [entry] ∧
      PromotesCandidate net (d, applied) entry := by
    refine ⟨_, if_pos ⟨?_, ?_⟩, hp, db', hdb ▸ hpromoted⟩
    · rw [hfault]
      exact Fault.noConfusion
    · rw [hlock, Option.any_some]
      exact Db.promotes_iff.mpr ⟨false, db', hdb ▸ hrun⟩
  have hrelease : ∀ db'', db'.Plain db'' → Reaches net fence latest head pid
      (Processor.releaseIfGuardianSwitched cfg m applied.guardianCommitment applied.commitment)
      (fun _ db₁ log' => PassAt (done ++ [d]) waiting applied.stateJson applied.commitment db₁ ∧
        ∃ entry, log' = log ++ [entry] ∧ PromotesCandidate net (d, applied) entry) db''
      (notePromotion pid (.commit (.promoteCandidate (promotionOf d applied m now))) ch w log) := fun db'' hplain =>
    reaches_releaseIfGuardianSwitched fun db₁ hplain₁ =>
      ⟨(hafter db'' hplain).plain hplain₁, hentry⟩
  dsimp only
  cases net.deltaProposalId d.nonce d.deltaPayload with
  | none => exact hrelease db' (.refl db')
  | some id =>
    refine .bind' (.query' fun rows => ?_)
    cases Query.run db' rows (.pullDeltaProposal id) with
    | none => exact hrelease db' (.refl db')
    | some proposal =>
      refine .bind' (.write' ?_ fun _ db'' hplain => hrelease db'' hplain)
      rintro r db'' ⟨⟩
      exact ⟨rfl, rfl, rfl, rfl, rfl, rfl⟩

/-- A candidate at the chain's head, or with a successor there. -/
theorem reaches_landed (h : PassAt done (d :: waiting) base stored db)
    (hdistinct : ((done ++ d :: waiting).map (·.nonce)).Nodup) (hprev : d.prevCommitment = stored)
    (happly : net.applyDelta base d.deltaPayload = some applied)
    (hrecorded : d.newCommitment = some applied.commitment) {successors : List Commitment}
    (hhead : applied.commitment = head ∨ head ∈ successors) :
    Reaches net fence latest head pid (Processor.processFullCandidate net cfg fence d successors)
      (fun step db' log' => step = .processed ∧
        PassAt (done ++ [d]) waiting applied.stateJson applied.commitment db' ∧
        ∃ entry, log' = log ++ [entry] ∧ PromotesCandidate net (d, applied) entry) db log := by
  obtain ⟨s, hs, hjson, hstored⟩ := h.state
  have hcanonicalize : Reaches net fence latest head pid
      (Processor.canonicalizeVerifiedDelta net cfg fence d applied .candidate)
      (fun _ db' log' => PassAt (done ++ [d]) waiting applied.stateJson applied.commitment db' ∧
        ∃ entry, log' = log ++ [entry] ∧ PromotesCandidate net (d, applied) entry) db log :=
    reaches_canonicalizeVerifiedDelta h hdistinct hprev hrecorded
  unfold Processor.processFullCandidate
  refine .bind' (.pullState' hs ?_)
  rw [if_neg (not_not_intro (hstored.trans hprev.symm)), hjson, happly]
  refine .bind' (.verify' (.bind' (.mono ?_ fun _ db' log' hafter => .pure' ⟨rfl, hafter⟩)))
  rw [Reaches.verdict]
  split
  · exact hcanonicalize
  · next hne =>
    have hmem : head ∈ successors := hhead.resolve_left hne
    have hthrough : Processor.landedThroughSuccessor d applied.commitment head successors = true := by
      rw [Processor.landedThroughSuccessor, hrecorded, beq_self_eq_true, Bool.true_and,
        List.contains_iff_mem]
      exact hmem
    unfold Processor.settleFullCandidate
    dsimp only
    rw [if_pos hthrough]
    exact hcanonicalize

/-- What is left of the queue's end: the first candidate may have its counters
rewritten, the others are as they were. -/
structure PassEnds (done waiting : List DeltaObject) (stored : Commitment) (db : Db) : Prop where
  state : ∃ s, db.state = some s ∧ s.commitment = stored
  promoted : ∀ d ∈ done, ∃ r t, db.rowAt d.nonce = some r ∧ r.delta = { d with status := .canonical t }
  queued : ∀ d ∈ waiting, ∃ r, db.rowAt d.nonce = some r ∧ r.delta.status.isCandidate = true ∧
    r.delta = { d with status := r.delta.status }

theorem PassAt.ends (h : PassAt done waiting base stored db) : PassEnds done waiting stored db := by
  obtain ⟨s, hs, -, hstored⟩ := h.state
  refine ⟨⟨s, hs, hstored⟩, h.promoted, fun d hd => ?_⟩
  obtain ⟨r, hr, rfl⟩ := h.queued d hd
  exact ⟨r, hr, h.candidate r.delta hd, rfl⟩

/-- A counter of a candidate is rewritten. -/
theorem reaches_updateCandidateStatus {status : DeltaStatus} {m : AccountMetadata} {r : DeltaRow}
    {Q : CanonicalWrite → Db → PromotionLog → Prop} (hm : db.metadata = some m)
    (hr : db.rowAt d.nonce = some r) (hc : r.delta.status.isCandidate = true)
    (hstatus : status.isCandidate = true)
    (hQ : ∀ db', Db.Updated d.nonce status r db db' → Q .applied db' log) :
    Reaches net fence latest head pid (Processor.updateCandidateStatus fence d status) Q db log := by
  have hkind : status.kind = .candidate := by
    cases status <;> first | rfl | cases hstatus
  have hrun : db.updateCandidateStatus true d.nonce status = some (.applied,
      db.updateRow d.nonce (·.isCandidate)
        (fun _ => status.withAbandonRequestPreservedFrom r.delta.status.abandonRequestedAt) id) := by
    unfold Db.updateCandidateStatus
    rw [hm]
    dsimp only
    rw [if_pos rfl, if_neg (fun h => h.1 hkind), hr]
    dsimp only
    rw [if_pos hc, if_neg]
    rintro ⟨hretained, -⟩
    rw [hkind] at hretained
    cases hretained
  obtain ⟨hnot, -⟩ | ⟨-, row, hupdated⟩ := Db.updateCandidateStatus_cases hrun
  · exact absurd rfl hnot
  have hrow : row = r := by
    have hat : db.rowAt d.nonce = some row :=
      Db.rowAt_eq_some.mpr ⟨hupdated.rewrites.mem_row, hupdated.row_nonce⟩
    exact Option.some.inj (hat.symm.trans hr)
  subst hrow
  have hcommit : Tx.run true db (.updateCandidateStatus d.nonce status d) = some (.applied, _) := hrun
  exact .orFail' (.fenced' hcommit fun w ch _ _ _ => ⟨_, rfl, hQ _ hupdated⟩)

/-- The candidate that is next is neither out of retries past its grace period nor
out of its abandon quarantine, at any time of the pass. -/
def Patient (cfg : Config) (latest : Time) (status : DeltaStatus) : Prop :=
  match status.abandonRequestedAt with
  | some requestedAt => status.abandonConfirmCount + 1 < cfg.abandonQuarantineChecks ∨
      latest - requestedAt < cfg.abandonQuarantineSeconds
  | none => status.retryCount + 1 < cfg.maxRetries ∨
      latest - status.timestamp < cfg.submissionGracePeriodSeconds

/-- The candidate `d` is queued, with whatever counters; the rest of the queue is
as it was. -/
structure Waits (done waiting : List DeltaObject) (d : DeltaObject) (stored : Commitment)
    (db : Db) : Prop where
  state : ∃ s, db.state = some s ∧ s.commitment = stored
  metadata : ∃ m, db.metadata = some m
  promoted : ∀ d' ∈ done, ∃ r t, db.rowAt d'.nonce = some r ∧
    r.delta = { d' with status := .canonical t }
  first : ∃ r, db.rowAt d.nonce = some r ∧ r.delta.status.isCandidate = true ∧
    r.delta = { d with status := r.delta.status }
  queued : ∀ d' ∈ waiting, ∃ r, db.rowAt d'.nonce = some r ∧ r.delta.status.isCandidate = true ∧
    r.delta = { d' with status := r.delta.status }

theorem PassAt.waits (h : PassAt done (d :: waiting) base stored db) :
    Waits done waiting d stored db := by
  have hends := h.ends
  exact ⟨hends.state, h.metadata, h.promoted, hends.queued d List.mem_cons_self,
    fun d' hd' => hends.queued d' (.tail _ hd')⟩

theorem Waits.ends (h : Waits done waiting d stored db) : PassEnds done (d :: waiting) stored db :=
  ⟨h.state, h.promoted, List.forall_mem_cons.mpr ⟨h.first, h.queued⟩⟩

theorem Waits.updated {db' : Db} {status : DeltaStatus} {row : DeltaRow}
    (h : Waits done waiting d stored db)
    (hother : ∀ {d'}, d' ∈ done ∨ d' ∈ waiting → d.nonce ≠ d'.nonce)
    (hstatus : status.isCandidate = true) (hrow : row.delta = { d with status := row.delta.status })
    (hupdated : Db.Updated d.nonce status row db db') : Waits done waiting d stored db' := by
  have hsame : ∀ {d' : DeltaObject} {r : DeltaRow}, d' ∈ done ∨ d' ∈ waiting →
      db.rowAt d'.nonce = some r → db'.rowAt d'.nonce = some r := fun hd' hr =>
    hupdated.rewrites.rowAt_ne (hupdated.row_nonce ▸ hother hd') hr
  refine ⟨?_, ?_, fun d' hd' => ?_, ?_, fun d' hd' => ?_⟩
  · rw [hupdated.rest.state]
    exact h.state
  · rw [hupdated.rest.metadata]
    exact h.metadata
  · obtain ⟨r, t, hr, hrd⟩ := h.promoted d' hd'
    exact ⟨r, t, hsame (.inl hd') hr, hrd⟩
  · refine ⟨_, hupdated.row_nonce ▸ hupdated.rewrites.rowAt_self rfl, ?_, ?_⟩
    · cases status <;> first | cases hstatus
      rename_i at? _
      cases at? <;> cases row.delta.status.abandonRequestedAt <;> rfl
    · have hstatus' : ∀ e : DeltaObject, e = { d with status := e.status } → ∀ status',
          ({ e with status := status' } : DeltaObject) = { d with status := status' } := by
        intro e he status'
        rw [he]
      exact hstatus' row.delta hrow _
  · obtain ⟨r, hr, hc, hrd⟩ := h.queued d' hd'
    exact ⟨r, hsame (.inr hd') hr, hc, hrd⟩

/-- One status write for the candidate that is next. -/
theorem reaches_rewrite {d' : DeltaObject} {status : DeltaStatus}
    (h : Waits done waiting d stored db)
    (hother : ∀ {d'}, d' ∈ done ∨ d' ∈ waiting → d.nonce ≠ d'.nonce)
    (hd' : d'.nonce = d.nonce) (hstatus : status.isCandidate = true) :
    Reaches net fence latest head pid (Processor.updateCandidateStatus fence d' status)
      (fun outcome db' log' => outcome = .applied ∧ Waits done waiting d stored db' ∧ log' = log)
      db log := by
  obtain ⟨m, hm⟩ := h.metadata
  obtain ⟨r, hr, hc, hrd⟩ := h.first
  refine reaches_updateCandidateStatus hm (hd' ▸ hr) hc hstatus fun db' hupdated => ⟨rfl, ?_, rfl⟩
  exact h.updated hother hstatus hrd (hd' ▸ hupdated)

theorem ensureLeaseKept_applied :
    Processor.ensureLeaseKept .applied = (pure () : Service Unit) := rfl

/-- The counters of a candidate the handlers read, unchanged by a reset of its
divergence streak. -/
structure SameCounters (status status' : DeltaStatus) : Prop where
  candidate : status'.isCandidate = status.isCandidate
  timestamp : status'.timestamp = status.timestamp
  retryCount : status'.retryCount = status.retryCount
  abandonRequestedAt : status'.abandonRequestedAt = status.abandonRequestedAt
  abandonConfirmCount : status'.abandonConfirmCount = status.abandonConfirmCount

theorem sameCounters_reset (status : DeltaStatus) :
    SameCounters status status.withResetDivergence := by
  cases status <;> exact ⟨rfl, rfl, rfl, rfl, rfl⟩

theorem reaches_resetDivergenceStreak (h : Waits done waiting d stored db)
    (hother : ∀ {d'}, d' ∈ done ∨ d' ∈ waiting → d.nonce ≠ d'.nonce)
    (hc : d.status.isCandidate = true) :
    Reaches net fence latest head pid (Processor.resetDivergenceStreak fence d)
      (fun d' db' log' => d'.nonce = d.nonce ∧ SameCounters d.status d'.status ∧
        Waits done waiting d stored db' ∧ log' = log) db log := by
  unfold Processor.resetDivergenceStreak
  split
  · exact .pure' ⟨rfl, ⟨rfl, rfl, rfl, rfl, rfl⟩, h, rfl⟩
  · have hstatus : d.status.withResetDivergence.isCandidate = true :=
      (sameCounters_reset d.status).candidate.trans hc
    refine .bind' ((reaches_rewrite h hother rfl hstatus).mono ?_)
    rintro _ db' log' ⟨rfl, hwaits, hlog⟩
    rw [ensureLeaseKept_applied]
    exact .bind' (.pure' (.pure' ⟨rfl, sameCounters_reset d.status, hwaits, hlog⟩))

/-- A candidate that has not landed waits, while it is patient. -/
theorem reaches_handleNotLanded (h : Waits done waiting d stored db)
    (hother : ∀ {d'}, d' ∈ done ∨ d' ∈ waiting → d.nonce ≠ d'.nonce)
    (hc : d.status.isCandidate = true) (hpatient : Patient cfg latest d.status) :
    Reaches net fence latest head pid (Processor.handleNotLanded net cfg fence d)
      (fun _ db' log' => Waits done waiting d stored db' ∧ log' = log) db log := by
  unfold Processor.handleNotLanded
  refine .bind' ((reaches_resetDivergenceStreak h hother hc).mono ?_)
  rintro d' db' log' ⟨hnonce, hcounters, hwaits, rfl⟩
  have hc' : d'.status.isCandidate = true := hcounters.candidate.trans hc
  have hrewrite : ∀ {status : DeltaStatus}, status.isCandidate = true →
      Reaches net fence latest head pid (do
        let outcome ← Processor.updateCandidateStatus fence d' status
        Processor.ensureLeaseKept outcome)
        (fun _ db₁ log₁ => Waits done waiting d stored db₁ ∧ log₁ = log') db' log' := by
    intro status hstatus
    refine .bind' ((reaches_rewrite hwaits hother hnonce hstatus).mono ?_)
    rintro _ db'' log'' ⟨rfl, hwaits', hlog⟩
    rw [ensureLeaseKept_applied]
    exact .pure' ⟨hwaits', hlog⟩
  unfold Patient at hpatient
  rw [← hcounters.abandonRequestedAt, ← hcounters.abandonConfirmCount, ← hcounters.retryCount,
    ← hcounters.timestamp] at hpatient
  split
  · next hrequested =>
    obtain ⟨requestedAt, hat⟩ := Option.isSome_iff_exists.mp hrequested
    rw [hat] at hpatient
    unfold Processor.handleAbandonConfirmation
    refine .bind' (.now' fun t ht => ?_)
    dsimp only
    rw [if_neg]
    · exact hrewrite (by rw [DeltaStatus.isCandidate_withIncrementedAbandonConfirm]; exact hc')
    · rintro ⟨hchecks, hage⟩
      rw [hat, Option.getD_some] at hage
      dsimp only at hpatient
      have hlatest : t - requestedAt ≤ latest - requestedAt := Nat.sub_le_sub_right ht requestedAt
      obtain hfew | hyoung := hpatient
      · exact absurd hchecks (Nat.not_le.mpr hfew)
      · exact absurd (hage.trans hlatest) (Nat.not_le.mpr hyoung)
  · next hnone =>
    rw [Option.not_isSome_iff_eq_none] at hnone
    rw [hnone] at hpatient
    unfold Processor.handleUnverifiedCandidate
    refine .bind' (.now' fun t ht => ?_)
    rw [candidateAgeSeconds, if_pos hc', Option.any_some]
    split
    · exact .pure' ⟨hwaits, rfl⟩
    · next hold =>
      rw [decide_eq_true_eq] at hold
      rw [if_neg]
      · exact hrewrite (by rw [DeltaStatus.isCandidate_withIncrementedRetry]; exact hc')
      · intro hretries
        dsimp only at hpatient
        have hlatest : t - d'.status.timestamp ≤ latest - d'.status.timestamp :=
          Nat.sub_le_sub_right ht d'.status.timestamp
        obtain hfew | hyoung := hpatient
        · exact absurd hretries (Nat.not_le.mpr hfew)
        · exact hold (hlatest.trans_lt hyoung)

/-- The first candidate past the chain's head. -/
theorem reaches_next (h : PassAt done (d :: waiting) base stored db)
    (hdistinct : ((done ++ d :: waiting).map (·.nonce)).Nodup) (hprev : d.prevCommitment = stored)
    (happly : net.applyDelta base d.deltaPayload = some applied) (hhead : stored = head)
    (hne : applied.commitment ≠ head) {successors : List Commitment} (hnot : head ∉ successors)
    (hpatient : Patient cfg latest d.status) :
    Reaches net fence latest head pid (Processor.processFullCandidate net cfg fence d successors)
      (fun step db' log' => step = .processed ∧ Waits done waiting d stored db' ∧ log' = log) db
      log := by
  obtain ⟨s, hs, hjson, hstored⟩ := h.state
  unfold Processor.processFullCandidate
  refine .bind' (.pullState' hs ?_)
  rw [if_neg (not_not_intro (hstored.trans hprev.symm)), hjson, happly]
  refine .bind' (.verify' (.bind' (.mono ?_ fun _ db' log' hafter => .pure' ⟨rfl, hafter⟩)))
  have hother : ∀ {d'}, d' ∈ done ∨ d' ∈ waiting → d.nonce ≠ d'.nonce := nonce_ne hdistinct
  have hmissed : Processor.landedThroughSuccessor d applied.commitment head successors = false := by
    rw [Processor.landedThroughSuccessor, Bool.and_eq_false_iff]
    right
    rw [← Bool.not_eq_true, List.contains_iff_mem]
    exact hnot
  rw [Reaches.verdict, if_neg hne]
  unfold Processor.settleFullCandidate
  dsimp only
  rw [if_neg (Bool.not_eq_true _ ▸ hmissed), if_neg (not_not_intro (hprev.trans hhead).symm)]
  exact reaches_handleNotLanded h.waits hother (h.candidate d List.mem_cons_self) hpatient

/-! ## The queue -/

section Queue
variable {s : StateObject} {rest : List DeltaObject} {isHead chainBroken : Bool}
  {predecessor : Option (Nonce × Option Commitment)} {firstError : Option GuardianError}
  {Q : Option GuardianError → Db → PromotionLog → Prop}

theorem reaches_storedBase {R : Option (Option Commitment) → Db → PromotionLog → Prop}
    (hs : db.state = some s) (h : R (some (if isHead then none else some s.commitment)) db log) :
    Reaches net fence latest head pid (Processor.storedBase isHead) R db log := by
  cases isHead with
  | true => exact .pure' h
  | false =>
    refine .bind' (.query' fun rows => ?_)
    have hrun : Query.run db rows .pullState = some s := hs
    rw [hrun]
    exact .pure' h

/-- A candidate on the stored state is processed, whatever came before it. -/
theorem reaches_processQueue_cons (hs : db.state = some s) (hprev : d.prevCommitment = s.commitment)
    (hstep : Reaches net fence latest head pid
      (Processor.processFullCandidate net cfg fence d (rest.filterMap (·.newCommitment)))
      (fun step db' log' => step = .processed ∧ Reaches net fence latest head pid
        (Processor.processQueue net cfg fence .full false false (some (d.nonce, d.newCommitment))
          firstError rest) Q db' log') db log) :
    Reaches net fence latest head pid (Processor.processQueue net cfg fence .full isHead chainBroken
      predecessor firstError (d :: rest)) Q db log := by
  unfold Processor.processQueue
  refine .bind' (.flag' ?_)
  rw [if_neg Bool.false_ne_true]
  refine .bind' (reaches_storedBase hs ?_)
  dsimp only
  have hbase : (if isHead then none else some s.commitment : Option Commitment).all
      (fun c => decide (c = d.prevCommitment)) = true := by
    cases isHead
    · exact decide_eq_true hprev.symm
    · rfl
  rw [if_pos hbase]
  refine .bind' (.absorb' (.mono hstep ?_))
  rintro _ db' log' ⟨rfl, hrest⟩
  exact hrest

/-- A candidate whose predecessor is still queued ends the loop. -/
theorem reaches_processQueue_waits {nonce : Nonce} {r : DeltaRow} (hs : db.state = some s)
    (hprev : s.commitment ≠ d.prevCommitment) (hr : db.rowAt nonce = some r)
    (hc : r.delta.status.isCandidate = true) (hQ : Q firstError db log) :
    Reaches net fence latest head pid (Processor.processQueue net cfg fence .full false false
      (some (nonce, some d.prevCommitment)) firstError (d :: rest)) Q db log := by
  unfold Processor.processQueue
  refine .bind' (.flag' ?_)
  rw [if_neg Bool.false_ne_true]
  refine .bind' (reaches_storedBase hs ?_)
  dsimp only
  have hbase : ¬(if false = true then none else some s.commitment : Option Commitment).all
      (fun c => decide (c = d.prevCommitment)) = true := by
    rw [if_neg Bool.false_ne_true, Option.all_some, decide_eq_true_eq]
    exact hprev
  have hqueued : (!false && (some (nonce, some d.prevCommitment) : Option (Nonce × Option Commitment)).bind
      (·.2) == some d.prevCommitment) = true := by
    rw [Option.bind_some, Bool.not_false, Bool.true_and, beq_self_eq_true]
  rw [if_neg hbase, hqueued]
  refine .bind' (.bind' (.query' fun rows => ?_))
  dsimp only
  have hrun : Query.run db rows (.pullDelta nonce) = some r.delta := by
    show (db.rowAt nonce).map (·.delta) = _
    rw [hr, Option.map_some]
  rw [hrun]
  refine .pure' ?_
  rw [if_pos hc]
  exact .pure' hQ

end Queue

/-- Every post commitment of a replay is past the state it starts from. -/
theorem replays_rank_lt (law : net.Lawful) {hops : List (DeltaObject × AppliedState)}
    (hbase : net.IsState base stored) (hreplays : Replays net id base hops)
    {hop : DeltaObject × AppliedState} (hmem : hop ∈ hops) :
    law.rank stored < law.rank hop.2.commitment := by
  induction hops generalizing base stored with
  | nil => cases hmem
  | cons first rest ih =>
    obtain ⟨happly, hrest⟩ := hreplays
    have hstep : law.rank stored < law.rank first.2.commitment :=
      law.rank_lt ⟨base, _, first.2, hbase, happly, rfl⟩
    obtain rfl | hmem := List.mem_cons.mp hmem
    · exact hstep
    · exact hstep.trans (ih (law.apply_isState happly) hrest hmem)

/-- The document the last of them leads to. -/
def lastJson (base : StateJson) (hops : List (DeltaObject × AppliedState)) : StateJson :=
  (hops.getLast?.map (·.2.stateJson)).getD base

theorem lastJson_cons (hop : DeltaObject × AppliedState) (rest : List (DeltaObject × AppliedState)) :
    lastJson base (hop :: rest) = lastJson hop.2.stateJson rest := by
  cases rest with
  | nil => rfl
  | cons next rest => rw [lastJson, lastJson, List.getLast?_cons_cons, List.getLast?_cons,
      Option.map_some, Option.getD_some, Option.getD_some]

/-- The queue up to the chain's head is promoted, candidate by candidate. -/
theorem reaches_landed_queue {landed : List (DeltaObject × AppliedState)} {isHead : Bool}
    {predecessor : Option (Nonce × Option Commitment)}
    {Q : Option GuardianError → Db → PromotionLog → Prop}
    (h : PassAt done (landed.map (·.1) ++ waiting) base stored db)
    (hdistinct : ((done ++ (landed.map (·.1) ++ waiting)).map (·.nonce)).Nodup)
    (hchained : Chained stored (landed.map (fun h => .of h.1)))
    (hreplays : Replays net id base landed)
    (hrecorded : ∀ hop ∈ landed, hop.1.newCommitment = some hop.2.commitment)
    (hhead : ∀ last ∈ landed.getLast?, last.2.commitment = head)
    (hthen : ∀ isHead predecessor db' entries,
      PassAt (done ++ landed.map (·.1)) waiting (lastJson base landed) (lastPost stored landed) db' →
      List.Forall₂ (PromotesCandidate net) landed entries →
      Reaches net fence latest head pid (Processor.processQueue net cfg fence .full isHead false
        predecessor none waiting) Q db' (log ++ entries)) :
    Reaches net fence latest head pid (Processor.processQueue net cfg fence .full isHead false
      predecessor none (landed.map (·.1) ++ waiting)) Q db log := by
  induction landed generalizing done base stored db log isHead predecessor with
  | nil =>
    have hnext := hthen isHead predecessor db [] (by rw [List.map_nil, List.append_nil]; exact h) .nil
    rwa [List.append_nil] at hnext
  | cons hop landed ih =>
    obtain ⟨d, applied⟩ := hop
    obtain ⟨hprev, next, hnext, hchained⟩ := hchained
    obtain ⟨happly, hreplays⟩ := hreplays
    have hpost : d.newCommitment = some applied.commitment := hrecorded _ List.mem_cons_self
    have hsame : some applied.commitment = some next := hpost.symm.trans hnext
    cases hsame
    have hprev : d.prevCommitment = stored := hprev
    obtain ⟨s, hs, -, hstored⟩ := h.state
    -- The head is this candidate's post commitment, or that of one further on.
    have hon : applied.commitment = head ∨
        head ∈ (landed.map (·.1) ++ waiting).filterMap (·.newCommitment) := by
      cases hlast : landed.getLast? with
      | none =>
        rw [List.getLast?_eq_none_iff.mp hlast] at hhead
        exact .inl (hhead (d, applied) rfl)
      | some last =>
        have hmem : last ∈ landed := List.mem_of_getLast? hlast
        have hfar : last.2.commitment = head := by
          refine hhead last ?_
          rw [List.getLast?_cons, hlast]
          rfl
        refine .inr (List.mem_filterMap.mpr ⟨last.1, List.mem_append_left _ (List.mem_map_of_mem hmem), ?_⟩)
        rw [hrecorded last (.tail _ hmem), hfar]
    refine reaches_processQueue_cons hs (hprev.trans hstored.symm)
      ((reaches_landed h hdistinct hprev happly hpost hon).mono ?_)
    rintro step db' log' ⟨rfl, hafter, entry, rfl, hentry⟩
    refine ⟨rfl, ih hafter ?_ hchained hreplays (fun hop hmem => hrecorded hop (.tail _ hmem)) ?_ ?_⟩
    · rw [List.append_assoc]
      exact hdistinct
    · intro last hlast
      refine hhead last ?_
      rw [List.getLast?_cons]
      rw [Option.mem_def] at hlast ⊢
      rw [hlast]
      rfl
    · intro isHead predecessor db'' entries hend hentries
      rw [List.append_assoc]
      refine hthen isHead predecessor db'' (entry :: entries) ?_ (.cons hentry hentries)
      rw [lastJson_cons, lastPost_cons, List.map_cons, ← List.singleton_append, ← List.append_assoc]
      exact hend

/-- The rest of the queue waits. -/
theorem reaches_waiting_queue (law : net.Lawful) {rest : List (DeltaObject × AppliedState)}
    {isHead : Bool} {predecessor : Option (Nonce × Option Commitment)}
    (h : PassAt done (rest.map (·.1)) base head db)
    (hdistinct : ((done ++ rest.map (·.1)).map (·.nonce)).Nodup) (hbase : net.IsState base head)
    (hchained : Chained head (rest.map (fun h => .of h.1))) (hreplays : Replays net id base rest)
    (hrecorded : ∀ hop ∈ rest, hop.1.newCommitment = some hop.2.commitment)
    (hpatient : ∀ next ∈ rest.head?, Patient cfg latest next.1.status) :
    Reaches net fence latest head pid (Processor.processQueue net cfg fence .full isHead false
      predecessor none (rest.map (·.1)))
      (fun e db' log' => e = none ∧ PassEnds done (rest.map (·.1)) head db' ∧ log' = log) db log := by
  cases rest with
  | nil => exact .pure' ⟨rfl, h.ends, rfl⟩
  | cons hop rest =>
    obtain ⟨d, applied⟩ := hop
    have hpast : ∀ hop ∈ (d, applied) :: rest, hop.2.commitment ≠ head := by
      intro hop hmem heq
      have hlt := replays_rank_lt law hbase hreplays hmem
      rw [heq] at hlt
      exact Nat.lt_irrefl _ hlt
    have hpost : d.newCommitment = some applied.commitment := hrecorded _ List.mem_cons_self
    have hnot : head ∉ (rest.map (·.1)).filterMap (·.newCommitment) := by
      intro hmem
      obtain ⟨d', hd', hnew⟩ := List.mem_filterMap.mp hmem
      obtain ⟨hop, hhop, rfl⟩ := List.mem_map.mp hd'
      rw [hrecorded hop (.tail _ hhop)] at hnew
      exact hpast hop (.tail _ hhop) (Option.some.inj hnew)
    obtain ⟨s, hs, -, hstored⟩ := h.state
    have hprev : d.prevCommitment = head := hchained.1
    refine reaches_processQueue_cons hs (hprev.trans hstored.symm)
      ((reaches_next h hdistinct hprev hreplays.1 rfl (hpast _ List.mem_cons_self) hnot
        (hpatient _ rfl)).mono ?_)
    rintro step db' log' ⟨rfl, hwaits, rfl⟩
    refine ⟨rfl, ?_⟩
    cases rest with
    | nil => exact .pure' ⟨rfl, hwaits.ends, rfl⟩
    | cons second rest =>
      -- The second one's base is the first one's post commitment, which is not stored.
      obtain ⟨-, next, hnext, hsecond, -⟩ := hchained
      have hsecond : second.1.prevCommitment = applied.commitment := by
        have hsame : some applied.commitment = some next := hpost.symm.trans hnext
        exact hsecond.trans (Option.some.inj hsame).symm
      obtain ⟨s', hs', hstored'⟩ := hwaits.state
      obtain ⟨r, hr, hc, -⟩ := hwaits.first
      rw [hpost, ← hsecond]
      refine reaches_processQueue_waits hs' ?_ hr hc ⟨rfl, hwaits.ends, rfl⟩
      rw [hstored', hsecond]
      exact (hpast _ List.mem_cons_self).symm

end Pass

/-! ## The pass -/

theorem candidates_nodup (db : Db) : ((db.candidates.map (·.delta)).map (·.nonce)).Nodup := by
  have hsorted := Table.sorted_select db.deltas (·.delta.status.isCandidate)
  rw [List.map_map]
  refine List.Pairwise.map _ ?_ hsorted
  intro a b hlt heq
  have hcolumn : a.column = b.column := congrArg nonceColumn heq
  rw [hcolumn] at hlt
  exact absurd hlt (lt_irrefl _)

/-- Before the pass: nothing is promoted, and the queue waits. -/
theorem passAt_start {db : Db} {state : StateObject} {m : AccountMetadata}
    (hstate : db.state = some state) (hm : db.metadata = some m)
    (hunowned : ∀ r ∈ db.candidates, db.owningExecution r.delta.nonce = none) :
    PassAt [] (db.candidates.map (·.delta)) state.stateJson state.commitment db := by
  have hrows : ∀ d ∈ db.candidates.map (·.delta), ∃ r ∈ db.candidates, r.delta = d := by
    intro d hd
    obtain ⟨r, hr, rfl⟩ := List.mem_map.mp hd
    exact ⟨r, hr, rfl⟩
  refine ⟨⟨state, hstate, rfl, rfl⟩, ⟨m, hm⟩, fun d hd => absurd hd List.not_mem_nil, ?_, ?_, ?_⟩
  · intro d hd
    obtain ⟨r, hr, rfl⟩ := hrows d hd
    exact ⟨r, Db.rowAt_eq_some.mpr ⟨(Table.mem_select.mp hr).1, rfl⟩, rfl⟩
  · intro d hd
    obtain ⟨r, hr, rfl⟩ := hrows d hd
    exact (Table.mem_select.mp hr).2
  · intro d hd
    obtain ⟨r, hr, rfl⟩ := hrows d hd
    exact hunowned r hr

theorem lastPost_isState {net : Network} (law : net.Lawful) {base : StateJson} {stored : Commitment}
    {hops : List (DeltaObject × AppliedState)} (hbase : net.IsState base stored)
    (hreplays : Replays net id base hops) :
    net.IsState (lastJson base hops) (lastPost stored hops) := by
  induction hops generalizing base stored with
  | nil => exact hbase
  | cons hop rest ih =>
    rw [lastJson_cons, lastPost_cons]
    exact ih (law.apply_isState hreplays.1) hreplays.2

theorem Replays.rest {net : Network} {base : StateJson}
    {hops rest : List (DeltaObject × AppliedState)} (h : Replays net id base (hops ++ rest)) :
    Replays net id (lastJson base hops) rest := by
  induction hops generalizing base with
  | nil => exact h
  | cons hop hops ih =>
    rw [lastJson_cons]
    exact ih h.2

theorem chained_append {stored : Commitment} {hops rest : List (DeltaObject × AppliedState)}
    (h : Chained stored ((hops ++ rest).map (fun h => .of h.1)))
    (hrecorded : ∀ hop ∈ hops, hop.1.newCommitment = some hop.2.commitment) :
    Chained stored (hops.map (fun h => .of h.1)) ∧
      Chained (lastPost stored hops) (rest.map (fun h => .of h.1)) := by
  induction hops generalizing stored with
  | nil => exact ⟨trivial, h⟩
  | cons hop hops ih =>
    obtain ⟨hprev, next, hnext, hrest⟩ := h
    have hpost : some hop.2.commitment = some next :=
      (hrecorded hop List.mem_cons_self).symm.trans hnext
    cases hpost
    obtain ⟨hfirst, hlast⟩ := ih hrest fun hop hmem => hrecorded hop (.tail _ hmem)
    rw [lastPost_cons]
    exact ⟨⟨hprev, _, hnext, hfirst⟩, hlast⟩

/-- For every queue of chained candidates, none of them owned by an execution, that
replays from the stored state to the recorded commitments, and every position `i`
of the chain's head in it: an undisturbed full pass ends and promotes exactly the
first `i` candidates in order, at the head, and the others are candidates still,
as long as the first of them is not itself at the end of its retries or of its
abandon quarantine. -/
theorem full_pass_promotes_to_head {net : Network} (law : net.Lawful) {cfg : Config}
    {fence : LeaseFence} {latest : Time} {head : Commitment} {pid : Nat} {w₀ : World}
    {state : StateObject} {m : AccountMetadata} {hops : List (DeltaObject × AppliedState)} {i : Nat}
    (hidle : w₀.Idle pid) (hm : w₀.db.metadata = some m) (hpending : m.hasPendingCandidate = true)
    (hstate : w₀.db.state = some state) (hvalid : net.IsState state.stateJson state.commitment)
    (hqueue : w₀.db.candidates.map (·.delta) = hops.map (·.1))
    (hunowned : ∀ r ∈ w₀.db.candidates, w₀.db.owningExecution r.delta.nonce = none)
    (hchained : Chained state.commitment (hops.map (fun h => .of h.1)))
    (hreplays : Replays net id state.stateJson hops)
    (hrecorded : ∀ hop ∈ hops, hop.1.newCommitment = some hop.2.commitment)
    (hi : 0 < i) (hin : i ≤ hops.length) (hhead : (hops[i - 1]?).map (·.2.commitment) = some head)
    (hpatient : ∀ next ∈ hops[i]?, Patient cfg latest next.1.status) :
    Completes (machine net) notePromotion (undisturbed fence latest) (answers head) pid
      (Processor.processFullPass net cfg fence).run
      (fun r w log => r = .ok () ∧ List.Forall₂ (PromotesCandidate net) (hops.take i) log ∧
        PassEnds ((hops.take i).map (·.1)) ((hops.drop i).map (·.1)) head w.db) w₀ [] := by
  have hsplit : hops.take i ++ hops.drop i = hops := List.take_append_drop i hops
  have hlast : (hops.take i).getLast? = hops[i - 1]? := by
    rw [List.getLast?_eq_getElem?, List.length_take, Nat.min_eq_left hin, List.getElem?_take,
      if_pos (Nat.sub_lt hi Nat.one_pos)]
  have hat : lastPost state.commitment (hops.take i) = head := by
    rw [lastPost, hlast, hhead]
    rfl
  have hcandidates : w₀.db.candidates.map (·.delta) =
      (hops.take i).map (·.1) ++ (hops.drop i).map (·.1) := by
    rw [hqueue, ← List.map_append, hsplit]
  have hstart := passAt_start hstate hm hunowned
  have hdistinct := candidates_nodup w₀.db
  rw [hcandidates] at hstart hdistinct
  have hchained' : Chained state.commitment ((hops.take i ++ hops.drop i).map (fun h => .of h.1)) := by
    rw [hsplit]
    exact hchained
  have hreplays' : Replays net id state.stateJson (hops.take i ++ hops.drop i) := by
    rw [hsplit]
    exact hreplays
  obtain ⟨hlanded, hwaiting⟩ := chained_append hchained'
    fun hop hmem => hrecorded hop (List.mem_of_mem_take hmem)
  have hbase := lastPost_isState law hvalid hreplays'.front
  rw [hat] at hbase hwaiting
  have hrun : Reaches net fence latest head pid
      (Processor.processQueue net cfg fence .full true false none none
        (w₀.db.candidates.map (·.delta)))
      (fun e db' log' => e = none ∧ List.Forall₂ (PromotesCandidate net) (hops.take i) log' ∧
        PassEnds ((hops.take i).map (·.1)) ((hops.drop i).map (·.1)) head db') w₀.db [] := by
    rw [hcandidates]
    refine reaches_landed_queue hstart hdistinct hlanded hreplays'.front
      (fun hop hmem => hrecorded hop (List.mem_of_mem_take hmem)) ?_ ?_
    · intro last hmem
      rw [hlast, Option.mem_def] at hmem
      rw [hmem] at hhead
      exact Option.some.inj hhead
    · intro isHead predecessor db' entries hend hentries
      rw [hat] at hend
      refine (reaches_waiting_queue law hend hdistinct hbase hwaiting hreplays'.rest
        (fun hop hmem => hrecorded hop (List.mem_of_mem_drop hmem)) ?_).mono ?_
      · intro next hnext
        rw [List.head?_drop] at hnext
        exact hpatient next hnext
      · rintro _ db'' log' ⟨rfl, hends, rfl⟩
        exact ⟨rfl, hentries, hends⟩
  have hnonempty : (w₀.db.candidates.map (·.delta)).isEmpty = false := by
    rw [List.isEmpty_eq_false_iff, hqueue]
    intro hnil
    rw [List.map_eq_nil_iff.mp hnil, List.length_nil] at hin
    omega
  have hpass : Reaches net fence latest head pid (Processor.processFullPass net cfg fence)
      (fun _ db' log' => List.Forall₂ (PromotesCandidate net) (hops.take i) log' ∧
        PassEnds ((hops.take i).map (·.1)) ((hops.drop i).map (·.1)) head db') w₀.db [] := by
    unfold Processor.processFullPass
    refine .bind' (.orFail' (.query' fun rows => ⟨_, rfl, ?_⟩))
    have hlisted : Query.run w₀.db rows .listWithPendingCandidates = true := by
      show w₀.db.metadata.any _ = true
      rw [hm, Option.any_some]
      exact hpending
    rw [if_pos hlisted]
    refine .bind' (.flag' ?_)
    rw [if_neg Bool.false_ne_true]
    refine .bind' (.absorb' ?_)
    unfold Processor.processAccount
    refine .bind' (.accountMetadata' hm (.bind' (.orFail' (.query' fun rows => ⟨_, rfl, ?_⟩))))
    rw [if_neg (Bool.not_eq_true _ ▸ hnonempty)]
    refine .bind' (.now' fun t _ => .bind' (hrun.mono ?_))
    rintro _ db' log' ⟨rfl, hafter⟩
    exact .pure' (.pure' hafter)
  refine (hpass w₀ hidle rfl).mono ?_
  rintro r w' log' ⟨_, rfl, -, hafter⟩
  exact ⟨rfl, hafter⟩

namespace ThreeQueued

def fence : LeaseFence := ⟨"canonicalization", "a", 0⟩

/-- A queued candidate that appends `letter`, tried `retries` times. -/
def candidate (nonce : Nonce) (base letter : String) (retries : Nat) : DeltaObject :=
  ⟨nonce, base, some (base ++ letter), letter, .candidate 0 retries 0 none 0⟩

/-- Three candidates are queued, the third tried `retries` times, and the first two
landed. -/
def start (retries : Nat) : World :=
  let w := Demo.world 0
  { w with
    db := { w.db with
      metadata := some ⟨.midenFalconRpo ["old"], true, none, none⟩
      deltas := ((w.db.deltas.insert ⟨0, candidate 1 "s" "a" 0⟩).insert
        ⟨1, candidate 2 "sa" "b" 0⟩).insert ⟨2, candidate 3 "sab" "c" retries⟩
      nextId := 3
      leases := fun name => if name = "canonicalization" then some ⟨"a", 0, 1000⟩ else none }
    chain := { w.chain with entries := [⟨"sab", 3, none⟩, ⟨"sa", 2, none⟩], tip := 3 } }

/-- The state a word is. -/
def state (word : String) (nonce : Nat) : AppliedState :=
  ⟨word, word, some nonce, [⟨"old", none⟩], some "guardian"⟩

def hops (retries : Nat) : List (DeltaObject × AppliedState) :=
  [(candidate 1 "s" "a" 0, state "sa" 1), (candidate 2 "sa" "b" 0, state "sab" 2),
    (candidate 3 "sab" "c" retries, state "sabc" 3)]

/-- What `undisturbed` and `answers` ask of a call between whose neighbours nothing
happens. -/
def fairly (_op : Op) (ch : Choice) (w : World) : Bool :=
  decide (w.clock ≤ 100) && w.db.leaseFenceIsCurrent fence w.clock && decide (ch.fault = .none) &&
    !ch.flag && decide (ch.block ≤ w.chain.tip) && decide (w.chain.headAt ch.block = some "sab")

/-- The pass, in `n` calls. -/
def pass (retries n : Nat) : Option (Except GuardianError Unit × World × PromotionLog) :=
  playFair (machine (.letters 0)) notePromotion 1 fairly (List.replicate n { block := 3 })
    (Processor.processFullPass (.letters 0) Demo.config fence).run (start retries) []

theorem fairly_ok (op : Op) (ch : Choice) (w : World) (h : fairly op ch w = true) :
    undisturbed fence 100 w w ∧ answers "sab" op ch w := by
  simp only [fairly, Bool.and_eq_true, decide_eq_true_eq, Bool.not_eq_true'] at h
  obtain ⟨⟨⟨⟨⟨hclock, hlease⟩, hfault⟩, hflag⟩, hblock⟩, hhead⟩ := h
  exact ⟨⟨rfl, rfl, rfl, hclock, hlease⟩, hfault, hflag, hblock, hhead⟩

end ThreeQueued

/-- The third candidate has no retries left: the pass that promotes the first two
parks it. -/
theorem full_pass_parks_exhausted :
    ¬Completes (machine (.letters 0)) notePromotion (undisturbed ThreeQueued.fence 100)
      (answers "sab") 1 (Processor.processFullPass (.letters 0) Demo.config ThreeQueued.fence).run
      (fun r w log => r = .ok () ∧
        List.Forall₂ (PromotesCandidate (.letters 0)) ((ThreeQueued.hops 2).take 2) log ∧
        PassEnds (((ThreeQueued.hops 2).take 2).map (·.1)) (((ThreeQueued.hops 2).drop 2).map (·.1))
          "sab" w.db) (ThreeQueued.start 2) [] := by
  intro hall
  have hrun : (ThreeQueued.pass 2 34).any (fun x => (x.2.1.db.rowAt 3).any
      (·.delta.status.isRetained)) = true := by decide +kernel
  obtain ⟨⟨r, w, log⟩, hplay, hrow⟩ := (Option.any_eq_true ..).mp hrun
  obtain ⟨row, hat, hretained⟩ := (Option.any_eq_true ..).mp hrow
  obtain ⟨-, -, hends⟩ := hall.play ThreeQueued.fairly_ok hplay
  obtain ⟨row', hat', hcandidate, -⟩ := hends.queued (ThreeQueued.candidate 3 "sab" "c" 2)
    List.mem_cons_self
  have hsame : row = row' := Option.some.inj (hat.symm.trans hat')
  rw [← hsame] at hcandidate
  revert hretained hcandidate
  cases row.delta.status <;> intro hretained hcandidate <;>
    first | exact Bool.false_ne_true hretained | exact Bool.false_ne_true hcandidate

/-- With retries left, the first two candidates are promoted and the third waits. -/
theorem full_pass_promotes_to_head_second :
    ∃ r w log, ThreeQueued.pass 0 31 = some (r, w, log) ∧ r = .ok () ∧
      List.Forall₂ (PromotesCandidate (.letters 0)) ((ThreeQueued.hops 0).take 2) log ∧
      PassEnds (((ThreeQueued.hops 0).take 2).map (·.1)) (((ThreeQueued.hops 0).drop 2).map (·.1))
        "sab" w.db := by
  have hsome : (ThreeQueued.pass 0 31).isSome = true := by decide +kernel
  obtain ⟨⟨r, w, log⟩, hplay⟩ := Option.isSome_iff_exists.mp hsome
  have hcompletes : Completes (machine (.letters 0)) notePromotion
      (undisturbed ThreeQueued.fence 100) (answers "sab") 1
      (Processor.processFullPass (.letters 0) Demo.config ThreeQueued.fence).run
      (fun r w log => r = .ok () ∧
        List.Forall₂ (PromotesCandidate (.letters 0)) ((ThreeQueued.hops 0).take 2) log ∧
        PassEnds (((ThreeQueued.hops 0).take 2).map (·.1)) (((ThreeQueued.hops 0).drop 2).map (·.1))
          "sab" w.db) (ThreeQueued.start 0) [] := full_pass_promotes_to_head (Network.lettersLawful 0)
    ⟨List.not_mem_nil, rfl⟩ rfl rfl rfl (Demo.isState_s 0) (by decide +kernel) (by decide +kernel)
    ⟨rfl, _, rfl, rfl, _, rfl, rfl, _, rfl, trivial⟩
    ⟨by decide +kernel, by decide +kernel, by decide +kernel, trivial⟩ (by decide +kernel)
    (by decide) (by decide) rfl
    (by rintro next ⟨⟩; exact .inl (by decide))
  exact ⟨r, w, log, hplay, hcompletes.play ThreeQueued.fairly_ok hplay⟩

end Guardian
