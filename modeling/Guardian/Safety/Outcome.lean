import Guardian.Held
import Guardian.Safety.Attempts
import Guardian.Safety.ChainHistory

/- What a failed execution says of the chain. A failure past the boundary is
   written by the worker whose send a node refused, and by the reconciler when
   the chain shows that the transaction expired or that the account moved on
   without it. `outcomes` is the discipline of both: an attempt that is recorded
   as failed is `Dead`, its transaction is not on chain and never will be.

   The reconciler takes a position other than the base, at or above the block
   the transaction executed against, for one the account moved on to: "The base
   was on chain at the block the transaction executed against." Nothing checks
   that. The executor may execute against a block of a lagging node at which the
   account had not reached the base yet; the same node then shows the reconciler
   a position before the base, and a transaction that is about to be included is
   recorded as discarded: `landed_recorded_failed`. -/
namespace Guardian

open Interleaving Service

/-- The attempt under the key has recorded the evidence. -/
def Db.Evidenced (db : Db) (k : String × Nat) (evidence : SubmissionEvidence) : Prop :=
  ∃ e ∈ db.executions, e.key = k ∧ e.evidence = some evidence

theorem Db.AttemptInv.evidence_eq {db : Db} (h : db.AttemptInv) {e : ExecutionRecord}
    {evidence : SubmissionEvidence} (he : e ∈ db.executions) (hev : db.Evidenced e.key evidence) :
    e.evidence = some evidence := by
  obtain ⟨e', he', hkey, hev'⟩ := hev
  rw [h.unique he he' hkey.symm]
  exact hev'

theorem Db.AttemptInv.evidenced_eq {db : Db} (h : db.AttemptInv) {k : String × Nat}
    {evidence evidence' : SubmissionEvidence} (hev : db.Evidenced k evidence)
    (hev' : db.Evidenced k evidence') : evidence = evidence' := by
  obtain ⟨e, he, rfl, heq⟩ := hev
  exact Option.some.inj (heq.symm.trans (h.evidence_eq he hev'))

def SentTransaction.key (t : SentTransaction) : String × Nat := (t.proposalId, t.attempt)

section Defs
variable {net : Network} (law : net.Lawful)

/-- The attempt's transaction cannot be included any more: a node refused it, it
has expired, or the account moved past the state it starts from. -/
def World.Closed (w : World) (k : String × Nat) (evidence : SubmissionEvidence) : Prop :=
  k ∈ w.ghost.rejected ∨ evidence.expirationBlock ≤ w.chain.tip ∨
    law.rank evidence.baseCommitment < law.rank w.chain.head

/-- It is not on chain either. -/
structure World.Dead (w : World) (k : String × Nat) (evidence : SubmissionEvidence) : Prop where
  absent : ∀ x ∈ w.chain.entries, x.execution ≠ some k
  closed : w.Closed law k evidence

/-- The entry is the transaction of the evidence, on top of its base. -/
structure Chain.Landed (c : Chain) (x : ChainEntry) (evidence : SubmissionEvidence) : Prop where
  commitment : x.commitment = evidence.expectedCommitment
  after : evidence.referenceBlock < x.block
  in_time : x.block ≤ evidence.expirationBlock
  above : law.rank evidence.baseCommitment < law.rank x.commitment
  next : ∀ z ∈ c.entries, law.rank z.commitment < law.rank x.commitment →
    law.rank z.commitment ≤ law.rank evidence.baseCommitment

/-- The base was on chain at the block the transaction executed against. -/
def World.grounded (w : World) (evidence : SubmissionEvidence) : Bool :=
  w.chain.onChainBy evidence.baseCommitment evidence.referenceBlock

/-- The attempt may be recorded as failed. -/
structure World.Condemned (w : World) (k : String × Nat) (evidence : SubmissionEvidence) : Prop where
  evidenced : w.db.Evidenced k evidence
  executed : evidence.referenceBlock ≤ w.chain.tip
  dead : w.grounded evidence = true → w.Dead law k evidence

/-- What holds of attempts, sent transactions and the chain in every run. -/
structure SendInv (w : World) : Prop where
  chain : w.chain.Sound net
  attempts : w.db.AttemptInv
  sent : ∀ {t}, t ∈ w.ghost.sent → w.db.Evidenced t.key t.evidence
  executed : ∀ {k evidence}, w.db.Evidenced k evidence → evidence.referenceBlock ≤ w.chain.tip
  landed : ∀ {x k}, x ∈ w.chain.entries → x.execution = some k →
    ∃ evidence, w.db.Evidenced k evidence ∧ w.chain.Landed law x evidence
  refused : ∀ {k}, k ∈ w.ghost.rejected → ∀ x ∈ w.chain.entries, x.execution ≠ some k
  failed : ∀ {e code evidence}, e ∈ w.db.executions → e.outcome = some (.failed code) →
    e.evidence = some evidence → w.grounded evidence = true → w.Dead law e.key evidence

/-- What only grows: the chain, the evidence, the refusals, and what is dead. -/
structure World.Outlasts (w w' : World) : Prop where
  chain : w.chain.Extends w'.chain
  evidenced : ∀ {k evidence}, w.db.Evidenced k evidence → w'.db.Evidenced k evidence
  rejected : ∀ {k}, k ∈ w.ghost.rejected → k ∈ w'.ghost.rejected
  dead : ∀ {k evidence}, w.db.Evidenced k evidence → w.Dead law k evidence → w'.Dead law k evidence

/-- What is made sure of before an attempt crosses its boundary, is sent, or is
recorded as failed past it. -/
def SendOk (w : World) : Op → Prop
  | .commit (.admitExecutionCandidate a) => a.evidence.referenceBlock ≤ w.chain.tip
  | .node (.submitTransaction proposalId attempt evidence) =>
    w.db.Evidenced (proposalId, attempt) evidence
  | .commit (.resolveExecution resolution true) => ∃ evidence,
    w.Condemned law (resolution.proposalId, resolution.attempt) evidence
  | _ => True

/-- The discipline of workers and reconcilers. -/
def outcomes : Discipline Op World where
  inv := SendInv law
  le := World.Outlasts law
  ok := fun _ op w => SendOk law w op
  le_refl := fun _ => ⟨.refl _, id, id, fun _ h => h⟩
  le_trans := fun h h' => ⟨h.chain.trans h'.chain, fun hev => h'.evidenced (h.evidenced hev),
    fun hk => h'.rejected (h.rejected hk), fun hev hd => h'.dead (h.evidenced hev) (h.dead hev hd)⟩

end Defs

/-! ## Calls -/

section Calls
variable {net : Network} {law : net.Lawful} {cfg : Config} {pid : Nat} {op : Op} {w w' : World}
  {k : String × Nat} {evidence : SubmissionEvidence}

/-- What a call sends, and what a node refuses. -/
theorem Effect.sends_cases (h : Effect pid w op w') :
    (w'.ghost.sent = w.ghost.sent ∧ w'.ghost.rejected = w.ghost.rejected) ∨
    ∃ n ch, op = .node n ∧ n.possible w.chain ch = true ∧ w'.ghost.sent = n.sends ch ++ w.ghost.sent ∧
      w'.ghost.rejected = n.refuses ch ++ w.ghost.rejected := by
  cases h with
  | @asked n ch hp => exact .inr ⟨n, ch, rfl, hp, rfl, rfl⟩
  | _ => exact .inl ⟨rfl, rfl⟩

theorem NodeCall.mem_sends {n : NodeCall} {ch : Choice} {t : SentTransaction}
    (h : t ∈ n.sends ch) : n = .submitTransaction t.proposalId t.attempt t.evidence := by
  cases n with
  | submitTransaction proposalId attempt evidence =>
    simp only [sends] at h
    split at h
    · rw [List.mem_singleton.mp h]
    · rw [List.mem_singleton.mp h]
    · cases h
  | _ => cases h

/-- A refused transaction is not on chain. -/
theorem NodeCall.mem_refuses {n : NodeCall} {ch : Choice} {chain : Chain}
    (hp : n.possible chain ch = true) (h : k ∈ n.refuses ch) :
    ∀ x ∈ chain.entries, x.execution ≠ some k := by
  cases n with
  | submitTransaction proposalId attempt evidence =>
    simp only [refuses] at h
    split at h
    · next hfault hsubmit =>
      rw [List.mem_singleton.mp h]
      simpa [possible, hfault, hsubmit] using hp
    · next hfault hsubmit =>
      rw [List.mem_singleton.mp h]
      simpa [possible, hfault, hsubmit] using hp
    · cases h
  | _ => cases h

theorem Effect.evidenced (hi : w.db.AttemptInv) (h : Effect pid w op w')
    (hev : w.db.Evidenced k evidence) : w'.db.Evidenced k evidence := by
  obtain ⟨e, he, rfl, heq⟩ := hev
  obtain ⟨e', he', hkey, hsame⟩ := h.attempt_to hi he
  exact ⟨e', he', hkey, (hsame (by simp [heq])).trans heq⟩

/-- Evidence is recorded by an admission only. -/
theorem Effect.evidenced_back (hi : w.db.AttemptInv) (h : Effect pid w op w')
    (hev : w'.db.Evidenced k evidence) : w.db.Evidenced k evidence ∨
      ∃ a, op = .commit (.admitExecutionCandidate a) ∧ Db.Admitted a w.db w'.db ∧
        (a.proposalId, a.attempt) = k ∧ a.evidence = evidence := by
  obtain ⟨e', he', rfl, heq⟩ := hev
  rcases h.attempt_back hi he' with he | ⟨hnone, _⟩ | ⟨e, f, he, _, ht, rfl⟩
  · exact .inl ⟨e', he, rfl, heq⟩
  · rw [hnone] at heq
    cases heq
  · have hkey := ht.key_eq
    cases ht with
    | renewed keeps => exact .inl ⟨e, he, hkey.symm, (keeps e).1 ▸ heq⟩
    | admitted hcall had hattempt =>
      cases heq
      exact .inr ⟨_, hcall, had, hattempt.symm, rfl⟩
    | committed | settled | failed => exact .inl ⟨e, he, hkey.symm, heq⟩

theorem Effect.rejected_mono (h : Effect pid w op w') (hk : k ∈ w.ghost.rejected) :
    k ∈ w'.ghost.rejected := by
  rcases h.sends_cases with ⟨_, heq⟩ | ⟨_, _, _, _, _, heq⟩
  · exact heq ▸ hk
  · rw [heq]
    exact List.mem_append_right _ hk

theorem Effect.dead (h : Effect pid w op w') (hd : w.Dead law k evidence) :
    w'.Dead law k evidence := by
  refine ⟨h.chain_eq ▸ hd.absent, ?_⟩
  rcases hd.closed with hk | hrest
  · exact .inl (h.rejected_mono hk)
  · exact .inr (h.chain_eq ▸ hrest)

theorem Effect.outlasts (hi : w.db.AttemptInv) (h : Effect pid w op w') : w.Outlasts law w' where
  chain := h.chain_eq ▸ .refl _
  evidenced := h.evidenced hi
  rejected := h.rejected_mono
  dead := fun _ => h.dead

/-- A failure that is written is made sure of. -/
theorem SendInv.failed_of_effect (hi : SendInv law w) (h : Effect pid w op w') (hok : SendOk law w op)
    {e' : ExecutionRecord} {code : ExecutionFailureCode} (he' : e' ∈ w'.db.executions)
    (hout : e'.outcome = some (.failed code)) (hev : e'.evidence = some evidence)
    (hg : w.grounded evidence = true) : w.Dead law e'.key evidence := by
  rcases h.attempt_back hi.attempts he' with he | ⟨hnone, _⟩ | ⟨e, f, he, hnone, ht, rfl⟩
  · exact hi.failed he hout hev hg
  · rw [hnone] at hev
    cases hev
  · have hkey := ht.key_eq
    cases ht with
    | renewed keeps =>
      rw [(keeps e).2.1, hnone] at hout
      cases hout
    | admitted => simp [ExecutionRecord.admitWith, hnone] at hout
    | committed | settled => simp [ExecutionRecord.settleAs] at hout
    | failed hcall _ hattempt hcrossed =>
      have hev' : e.evidence = some evidence := hev
      rw [ExecutionRecord.boundaryCrossed, hev'] at hcrossed
      subst hcrossed hcall
      obtain ⟨evidence', hcondemned⟩ := hok
      rw [← hattempt] at hcondemned
      obtain rfl : evidence' = evidence :=
        Option.some.inj ((hi.attempts.evidence_eq he hcondemned.evidenced).symm.trans hev')
      rw [hkey]
      exact hcondemned.dead hg

theorem SendInv.of_effect (hi : SendInv law w) (h : Effect pid w op w') (hok : SendOk law w op) :
    SendInv law w' where
  chain := h.chain_eq ▸ hi.chain
  attempts := hi.attempts.of_step (h.attempts hi.attempts)
  sent := by
    intro t ht
    refine h.evidenced hi.attempts ?_
    rcases h.sends_cases with ⟨heq, _⟩ | ⟨n, ch, rfl, _, heq, _⟩
    · exact hi.sent (heq ▸ ht)
    · rw [heq] at ht
      rcases List.mem_append.mp ht with ht | ht
      · rw [NodeCall.mem_sends ht] at hok
        exact hok
      · exact hi.sent ht
  executed := by
    intro k evidence hev
    rw [h.chain_eq]
    rcases h.evidenced_back hi.attempts hev with hev | ⟨a, rfl, _, _, rfl⟩
    · exact hi.executed hev
    · exact hok
  landed := by
    intro x k hx hk
    rw [h.chain_eq] at hx ⊢
    obtain ⟨evidence, hev, hl⟩ := hi.landed hx hk
    exact ⟨evidence, h.evidenced hi.attempts hev, hl⟩
  refused := by
    intro k hk
    rw [h.chain_eq]
    rcases h.sends_cases with ⟨_, heq⟩ | ⟨n, ch, _, hp, _, heq⟩
    · exact hi.refused (heq ▸ hk)
    · rw [heq] at hk
      rcases List.mem_append.mp hk with hk | hk
      · exact NodeCall.mem_refuses hp hk
      · exact hi.refused hk
  failed := by
    intro e' code evidence he' hout hev hg
    have hg' : w.grounded evidence = true := by
      rw [World.grounded, ← h.chain_eq]
      exact hg
    exact h.dead (hi.failed_of_effect h hok he' hout hev hg')

end Calls

/-! ## Blocks -/

section Blocks
variable {net : Network} {law : net.Lawful} {w w' : World} {k : String × Nat}
  {evidence : SubmissionEvidence}

theorem World.includable_sent {m : Move} {c : Commitment} (h : w.includable m c = true)
    (hk : m.execution = some k) : k ∉ w.ghost.rejected ∧ ∃ t ∈ w.ghost.sent, t.key = k ∧
      t.evidence.baseCommitment = w.chain.head ∧ t.evidence.expectedCommitment = c ∧
      w.chain.tip + 1 ≤ t.evidence.expirationBlock := by
  simp only [includable, hk, Bool.and_eq_true, List.all_eq_true, bne_iff_ne, List.any_eq_true,
    beq_iff_eq, decide_eq_true_eq] at h
  obtain ⟨hrejected, t, ht, ⟨⟨hkey, hbase⟩, hexpected⟩, htime⟩ := h
  exact ⟨fun hin => hrejected k hin rfl, t, ht, hkey, hbase, hexpected, htime⟩

/-- A block includes an attempt's transaction only on top of its base, in time,
and if no node refused it. -/
theorem SendInv.landed_of_mined (hi : SendInv law w) {es : List ChainEntry} (hm : Mined net w es)
    (hs : Chain.Sound net ⟨w.chain.first, es ++ w.chain.entries, w.chain.tip + 1⟩) {x : ChainEntry}
    (hx : x ∈ es) (hk : x.execution = some k) :
    k ∉ w.ghost.rejected ∧ ∃ evidence, w.db.Evidenced k evidence ∧
      w.chain.tip + 1 ≤ evidence.expirationBlock ∧
      law.rank w.chain.head ≤ law.rank evidence.baseCommitment ∧
      Chain.Landed law ⟨w.chain.first, es ++ w.chain.entries, w.chain.tip + 1⟩ x evidence := by
  obtain ⟨newer, older, m, hsplit, hentry⟩ := Chain.mined_entry hm hx
  obtain ⟨hstep, hblock, hexecution, hinc⟩ := Chain.entry_step hentry
  obtain ⟨hrejected, t, ht, rfl, hbase, hexpected, htime⟩ :=
    World.includable_sent hinc (hexecution ▸ hk)
  have hev := hi.sent ht
  have hentries : es ++ w.chain.entries = newer ++ x :: (older ++ w.chain.entries) := by
    simp [hsplit]
  have hbelow : ∀ {c : Commitment},
      c ∈ Chain.history ⟨w.chain.first, es ++ w.chain.entries, w.chain.tip + 1⟩ →
      law.rank c < law.rank x.commitment → law.rank c ≤ law.rank t.evidence.baseCommitment := by
    intro c hc hlt
    rw [hbase]
    exact hs.below_next law hentries hc hlt
  have hhead : law.rank w.chain.head < law.rank x.commitment := by
    obtain ⟨rest, hrest⟩ := w.chain.history_cons
    have hranks := hs.history_ranks law
    simp only [Chain.history, List.map_append, List.append_assoc] at hranks
    refine (List.pairwise_append.mp hranks).2.2 _ (List.mem_map_of_mem hx) _ ?_
    rw [← Chain.history, hrest]
    exact List.mem_cons_self
  refine ⟨hrejected, t.evidence, hev, htime, hbelow ?_ hhead, hexpected.symm, ?_, ?_, ?_, ?_⟩
  · obtain ⟨rest, hrest⟩ := w.chain.history_cons
    simp only [Chain.history, List.map_append, List.append_assoc]
    refine List.mem_append_right _ ?_
    rw [← Chain.history, hrest]
    exact List.mem_cons_self
  · have hpast := hi.executed hev
    rw [hblock]
    exact Nat.lt_succ_of_le hpast
  · rw [hblock]
    exact htime
  · rw [hbase]
    exact law.rank_lt hstep
  · intro z hz hlt
    exact hbelow (Chain.mem_history hz) hlt

theorem SendInv.dead_of_act (hi : SendInv law w) (h : ActEffect net w w')
    (hev : w.db.Evidenced k evidence) (hd : w.Dead law k evidence) : w'.Dead law k evidence := by
  have hs := hi.chain.of_act law.toCoherent h
  cases h with
  | tick | crash => exact ⟨hd.absent, hd.closed⟩
  | @mine es hm =>
    have habsent : ∀ x ∈ es, x.execution ≠ some k := by
      intro x hx hk
      obtain ⟨hrejected, evidence', hev', htime, hhead, _⟩ := hi.landed_of_mined hm hs hx hk
      obtain rfl := hi.attempts.evidenced_eq hev hev'
      rcases hd.closed with hin | hexpired | hpast
      · exact hrejected hin
      · omega
      · omega
    refine ⟨fun x hx => ?_, ?_⟩
    · rcases List.mem_append.mp hx with hx | hx
      · exact habsent x hx
      · exact hd.absent x hx
    · rcases hd.closed with hin | hexpired | hpast
      · exact .inl hin
      · exact .inr (.inl (hexpired.trans (Nat.le_succ _)))
      · refine .inr (.inr (hpast.trans_le (hs.rank_le_head law ?_)))
        obtain ⟨rest, hrest⟩ := w.chain.history_cons
        refine Chain.history_mono (.mine hm) ?_
        rw [hrest]
        exact List.mem_cons_self

theorem ActEffect.outlasts (hi : SendInv law w) (h : ActEffect net w w') : w.Outlasts law w' where
  chain := .of_act h
  evidenced := fun hev => h.db ▸ hev
  rejected := fun hk => by cases h <;> exact hk
  dead := hi.dead_of_act h

theorem SendInv.of_act (hi : SendInv law w) (h : ActEffect net w w') : SendInv law w' := by
  have hs := hi.chain.of_act law.toCoherent h
  have hext := Chain.Extends.of_act h
  have hfailed : ∀ {e code evidence}, e ∈ w.db.executions → e.outcome = some (.failed code) →
      e.evidence = some evidence → w'.grounded evidence = true → w'.Dead law e.key evidence := by
    intro e code evidence he hout hev hg
    have hevidenced : w.db.Evidenced e.key evidence := ⟨e, he, rfl, hev⟩
    rw [World.grounded, hext.onChainBy_eq (hi.executed hevidenced)] at hg
    exact hi.dead_of_act h hevidenced (hi.failed he hout hev hg)
  cases h with
  | tick | crash =>
    exact ⟨hs, hi.attempts, hi.sent, hi.executed, hi.landed, hi.refused, hfailed⟩
  | @mine es hm =>
    refine ⟨hs, hi.attempts, hi.sent, fun hev => (hi.executed hev).trans (Nat.le_succ _),
      fun {x k} hx hk => ?_, fun {k} hk x hx hxk => ?_, hfailed⟩
    · rcases List.mem_append.mp hx with hx | hx
      · obtain ⟨_, evidence, hev, _, _, hl⟩ := hi.landed_of_mined hm hs hx hk
        exact ⟨evidence, hev, hl⟩
      · obtain ⟨evidence, hev, hl⟩ := hi.landed hx hk
        refine ⟨evidence, hev, hl.commitment, hl.after, hl.in_time, hl.above, fun z hz hlt => ?_⟩
        rcases List.mem_append.mp hz with hz | hz
        · have habove := (List.pairwise_append.mp (hs.entry_ranks law)).2.2 z hz x hx
          omega
        · exact hl.next z hz hlt
    · rcases List.mem_append.mp hx with hx | hx
      · exact (hi.landed_of_mined hm hs hx hxk).1 hk
      · exact hi.refused hk x hx hxk

theorem SendInv.of_fresh (h : w.Fresh net) : SendInv law w where
  chain := .of_fresh h
  attempts := by constructor <;> simp [h.executions]
  sent := fun ht => by
    rw [h.ghost] at ht
    cases ht
  executed := by
    rintro k evidence ⟨e, he, _⟩
    simp [h.executions] at he
  landed := fun hx => by simp [h.entries] at hx
  refused := fun hk => by
    rw [h.ghost] at hk
    cases hk
  failed := fun he => by simp [h.executions] at he

theorem World.Condemned.climb (hc : w.Condemned law k evidence) (hle : w.Outlasts law w') :
    w'.Condemned law k evidence := by
  refine ⟨hle.evidenced hc.evidenced, hc.executed.trans hle.chain.tip, fun hg => ?_⟩
  rw [World.grounded, hle.chain.onChainBy_eq hc.executed] at hg
  exact hle.dead hc.evidenced (hc.dead hg)

theorem outcomes_kept (law : net.Lawful) (P : Op → Prop) : (outcomes law).Kept (machine net) P where
  call := fun _ hok hx hi =>
    ⟨SendInv.of_effect hi (exec_effect hx).2 hok, (exec_effect hx).2.outlasts hi.attempts⟩
  act := fun ha hi => ⟨SendInv.of_act hi (act_effect ha), (act_effect ha).outlasts hi⟩

end Blocks

/-! ## Verdicts -/

section Verdicts
variable {net : Network} {law : net.Lawful} {w : World} {k : String × Nat}
  {evidence : SubmissionEvidence} {b : Nat}

/-- A node at or past the expiration that has the account at the base or nowhere
will not see the transaction. -/
theorem SendInv.dead_of_expired (hi : SendInv law w) (hev : w.db.Evidenced k evidence)
    (hb : b ≤ w.chain.tip) (hexpired : evidence.expirationBlock ≤ b)
    (hat : ∀ c, w.chain.headAt b = some c → c = evidence.baseCommitment) :
    w.Dead law k evidence := by
  refine ⟨fun x hx hk => ?_, .inr (.inl (hexpired.trans hb))⟩
  obtain ⟨evidence', hev', hl⟩ := hi.landed hx hk
  obtain rfl := hi.attempts.evidenced_eq hev hev'
  have hblock : x.block ≤ b := hl.in_time.trans hexpired
  cases hhead : w.chain.headAt b with
  | none =>
    have habove := Chain.headAt_eq_none hhead hx
    omega
  | some c =>
    obtain ⟨_, _, _, _, hnewest⟩ := hi.chain.headAt_newest law hhead
    have hle := hnewest x hx hblock
    have habove := hl.above
    rw [hat c hhead] at hle
    omega

/-- An account that is past the base at a block up to which the transaction was
not found has moved on without it. -/
theorem SendInv.dead_of_movedOn (hi : SendInv law w) (hev : w.db.Evidenced k evidence)
    (hg : w.grounded evidence = true) {c : Commitment} (hat : w.chain.headAt b = some c)
    (hb : evidence.referenceBlock ≤ b) (hne : c ≠ evidence.baseCommitment)
    (hmiss : ∀ x ∈ w.chain.entries, evidence.referenceBlock ≤ x.block → x.block ≤ b →
      x.commitment ≠ evidence.expectedCommitment) :
    w.Dead law k evidence := by
  have hpast : law.rank evidence.baseCommitment < law.rank c := by
    rcases hi.chain.rank_le_headAt law hg hb hat with heq | hlt
    · exact absurd heq.symm hne
    · exact hlt
  refine ⟨fun x hx hk => ?_, .inr (.inr ?_)⟩
  · obtain ⟨evidence', hev', hl⟩ := hi.landed hx hk
    obtain rfl := hi.attempts.evidenced_eq hev hev'
    obtain ⟨y, hy, rfl, hyb, _⟩ := hi.chain.headAt_newest law hat
    -- above block `b`, the transaction would be on top of what is at `b`
    have hafter : b < x.block := by
      by_contra hle
      exact hmiss x hx hl.after.le (not_lt.mp hle) hl.commitment
    obtain rfl | ⟨hlt, _⟩ | ⟨_, hle⟩ := hi.chain.position law hy hx
    · omega
    · have hbelow := hl.next y hy hlt
      omega
    · omega
  · exact hpast.trans_le (hi.chain.rank_le_head law (Chain.headAt_mem hat))

end Verdicts

/-! ## Processes -/

section Processes
variable {net : Network} {law : net.Lawful} {cfg : Config} {pid : Nat} {w : World} {ε : Type}
  {k : String × Nat} {evidence : SubmissionEvidence}

theorem sendOk_of_quiet {o : Op} (h : o.quiet = true) : SendOk law w o := by
  cases o with
  | commit tx => cases tx <;> trivial
  | node n => cases n <;> trivial
  | _ => trivial

theorem quietly_outcomes {o : Op} (h : o.quiet = true) : From (outcomes law) pid w o :=
  fun _ _ => sendOk_of_quiet h

theorem claims_outcomes {expected claimant : LeaseFence} {expiresAt : Time} :
    From (outcomes law) pid w (.commit (.claimExecutionReservation expected claimant expiresAt)) :=
  fun _ _ => trivial

theorem reserves_outcomes {proposalId : String} {fence : LeaseFence} {expiresAt : Time} :
    From (outcomes law) pid w (.commit (.createExecutionReservation proposalId fence expiresAt)) :=
  fun _ _ => trivial

/-- A failure before the boundary needs nothing. -/
theorem fails_outcomes {r : ExecutionResolution} :
    From (outcomes law) pid w (.commit (.resolveExecution r false)) := fun _ _ => trivial

/-- A node answered a call made since `w`, from the chain of its moment. -/
structure Answered (law : net.Lawful) (w : World) (n : NodeCall) (a : n.Answer) (w' : World) :
    Prop where
  inv : SendInv law w'
  since : w.Outlasts law w'
  answer : ∃ ch, ch.fault = .none ∧ n.possible w'.chain ch = true ∧ a = n.run w'.chain ch ∧
    ∀ k ∈ n.refuses ch, k ∈ w'.ghost.rejected

theorem ensures_asked {n : NodeCall} (hok : From (outcomes law) pid w (.node n)) :
    Ensures (machine net) (outcomes law) pid (node n : Proc ε _)
      (fun r w' => ∀ a, r = some a → Answered law w n a w') w := by
  refine Ensures.op' fun w₁ hle _ => ⟨hok w₁ hle, fun ch r w₂ hx hi hle₂ a ha => ?_⟩
  subst ha
  refine ⟨hi, (outcomes law).le_trans hle hle₂, ch, ?_⟩
  obtain ⟨hfault, hpossible, rfl, rfl⟩ := exec_node_answer hx
  exact ⟨hfault, hpossible, rfl, fun k hk => List.mem_append_left _ hk⟩

namespace Reconciler

/-- A verdict the reconciler writes is the chain's. -/
def Verdict (law : net.Lawful) (k : String × Nat) (evidence : SubmissionEvidence)
    (observed : Observed) (w : World) : Prop :=
  ∀ code, observed = .settles code → w.Condemned law k evidence

theorem ensures_atBase (hi : SendInv law w) (hev : w.db.Evidenced k evidence) {block : Nat}
    (hb : block ≤ w.chain.tip) (hat : w.grounded evidence = true →
      ∀ c, w.chain.headAt block = some c → c = evidence.baseCommitment) :
    Ensures (machine net) (outcomes law) pid (observe.atBase evidence block)
      (Verdict law k evidence) w := by
  unfold observe.atBase
  split
  · next hexpired =>
    exact Ensures.pure' fun _ _ => ⟨hev, hi.executed hev, fun hg =>
      hi.dead_of_expired hev hb hexpired (hat hg)⟩
  · exact Ensures.pure' nofun

theorem ensures_movedOn (hev : w.db.Evidenced k evidence) {block : Nat} {onChain : Commitment}
    (hat : w.chain.headAt block = some onChain) (hb : block ≤ w.chain.tip)
    (hreference : evidence.referenceBlock ≤ block)
    (hne : eqIgnoreAsciiCase onChain evidence.baseCommitment ≠ true) :
    Ensures (machine net) (outcomes law) pid (movedOn evidence block) (Verdict law k evidence) w := by
  unfold movedOn
  refine Ensures.bind' ((ensures_orFail (ensures_asked (quietly_outcomes rfl))).mono
    fun search w₁ _ h => ?_)
  obtain ⟨hi, hle, ch, _, _, rfl, _⟩ := h
  split
  · exact Ensures.pure' nofun
  next hmissed =>
  split
  · exact Ensures.pure' nofun
  next hresume =>
  have hev₁ := hle.evidenced hev
  refine Ensures.pure' fun _ _ => ⟨hev₁, hi.executed hev₁, fun hg => ?_⟩
  refine hi.dead_of_movedOn hev₁ hg ((hle.chain.headAt_eq hb).trans hat) hreference ?_ ?_
  · rintro rfl
    exact hne (by simp [eqIgnoreAsciiCase])
  · intro x hx hfrom hblock heq
    have hmiss := Chain.findTransactionEndingAt_none (Bool.eq_false_iff.mpr hmissed) hx hfrom
      (hblock.trans_lt (not_le.mp hresume))
    rw [heq] at hmiss
    simp [eqIgnoreAsciiCase] at hmiss

theorem ensures_observe (hev : w.db.Evidenced k evidence) :
    Ensures (machine net) (outcomes law) pid (observe evidence) (Verdict law k evidence) w := by
  unfold observe
  refine Ensures.bind' ((ensures_orFail (ensures_asked (quietly_outcomes rfl))).mono
    fun answer w₁ _ h => ?_)
  obtain ⟨hi, hle, ch, _, hpossible, rfl, _⟩ := h
  have hev₁ := hle.evidenced hev
  have hb : ch.block ≤ w₁.chain.tip := of_decide_eq_true hpossible
  dsimp only [NodeCall.run]
  split
  · exact Ensures.pure' nofun
  · next habsent =>
    refine ensures_atBase hi hev₁ hb fun _ c hc => ?_
    simp [Chain.verifyCommitment, hc] at habsent
    split at habsent <;> cases habsent
  · next onChain hmismatch =>
    have hat := Chain.verifyCommitment_mismatch hmismatch
    split
    · next hbase =>
      refine ensures_atBase hi hev₁ hb fun hg c hc => ?_
      rw [hat] at hc
      cases hc
      obtain ⟨s, hs⟩ := hi.chain.states (Chain.headAt_mem hat)
      obtain ⟨s', hs'⟩ := hi.chain.states (Chain.mem_of_onChainBy hg)
      exact law.eq_of_ignoreCase hs hs' hbase
    next hne =>
    split
    · exact Ensures.pure' nofun
    · next hreference => exact ensures_movedOn hev₁ hat hb (not_lt.mp hreference) hne

theorem ensures_settle (record : ExecutionRecord) (fence : LeaseFence) (expiresAt : Time)
    (observed : Observed) (hverdict : Verdict law record.key evidence observed w) :
    Ensures (machine net) (outcomes law) pid (settle record fence expiresAt observed)
      (fun _ _ => True) w := by
  refine ensures_of_makes ?_
  have hquiet : ∀ {o : Op}, o.quiet = true → From (outcomes law) pid w o := quietly_outcomes
  unfold settle
  split
  · refine (makes_now hquiet).bind' fun _ => ?_
    refine (makes_fenced (hquiet rfl) (hquiet rfl)).bind' fun _ => ?_
    split
    · exact Worker.makes_releaseQuietly hquiet _
    · exact makes_hold hquiet _ _
  · exact makes_hold hquiet _ _
  · next code =>
    have hresolve : ∀ {r : ExecutionResolution}, (r.proposalId, r.attempt) = record.key →
        From (outcomes law) pid w (.commit (.resolveExecution r true)) :=
      fun hkey w' hle => ⟨evidence, hkey ▸ (hverdict code rfl).climb hle⟩
    refine (makes_now hquiet).bind' fun _ => ?_
    refine (makes_fenced (hquiet rfl) (hresolve rfl)).bind' fun _ => ?_
    split
    · exact Worker.makes_releaseQuietly hquiet _
    · trivial

theorem ensures_reconcile (holderId : String) (kind : PassKind) (restarted : Bool)
    {record : ExecutionRecord}
    (hrecord : ∀ evidence, record.evidence = some evidence → w.db.Evidenced record.key evidence) :
    Ensures (machine net) (outcomes law) pid (reconcile cfg holderId kind restarted record)
      (fun _ _ => True) w := by
  unfold reconcile
  refine ensures_seq (makes_now quietly_outcomes) fun now w₁ hle₁ => ?_
  split
  · exact Ensures.pure' trivial
  refine ensures_seq (makes_takeOwnership quietly_outcomes claims_outcomes _ _) fun owned w₂ hle₂ => ?_
  split
  · exact Ensures.pure' trivial
  split
  · refine ensures_of_makes ((makes_now quietly_outcomes).bind' fun _ => ?_)
    refine (makes_fenced (quietly_outcomes rfl) fails_outcomes).bind' fun _ => ?_
    exact Worker.makes_releaseQuietly quietly_outcomes _
  next evidence hev =>
  have hev₂ := hle₂.evidenced (hle₁.evidenced (hrecord evidence hev))
  have hobserve : Ensures (machine net) (outcomes law) pid (reconcile.observeInTime evidence)
      (Verdict law record.key evidence) w₂ := by
    unfold reconcile.observeInTime
    refine Ensures.bind' ((ensures_observe hev₂).mono fun observed w₃ _ hverdict => ?_)
    refine ensures_seq (makes_flag quietly_outcomes) fun late w₄ hle₄ => ?_
    split
    · exact Ensures.throw' _
    · exact Ensures.pure' fun code hcode => (hverdict code hcode).climb hle₄
  refine Ensures.bind' (hobserve.absorb_of.mono fun r w₃ _ hverdict => ?_)
  cases r with
  | error e => exact ensures_of_makes (makes_hold quietly_outcomes _ _)
  | ok observed =>
    refine ensures_seq (makes_renewAfterObserving quietly_outcomes _) fun renewed w₄ hle₄ => ?_
    split
    · exact Ensures.pure' trivial
    · exact ensures_settle record _ _ observed fun code hcode =>
        (hverdict observed rfl code hcode).climb hle₄

theorem ensures_pass (holderId : String) (kind : PassKind) (restarted : Bool) :
    Ensures (machine net) (outcomes law) pid (pass cfg holderId kind restarted)
      (fun _ _ => True) w := by
  unfold pass
  have hread : Ensures (machine net) (outcomes law) pid
      (orFail (query .loadActiveExecution) .storageError : Service _)
      (fun active w' => active = w'.db.activeExecution) w := by
    refine ensures_orFail (Ensures.op' fun w₁ _ _ => ⟨trivial, fun ch r w₂ hx _ _ a ha => ?_⟩)
    subst ha
    simp only [machine, exec] at hx
    split at hx
    · cases hx
    split at hx <;> cases hx
    rfl
  refine Ensures.bind' (hread.mono fun active w₁ _ hactive => ?_)
  subst hactive
  split
  · exact Ensures.pure' trivial
  · next record hrecord =>
    exact ensures_reconcile holderId kind restarted fun evidence hev =>
      ⟨record, (Db.activeExecution_eq_some hrecord).1, rfl, hev⟩

end Reconciler

namespace Worker
variable (job : ExecutionJob)

/-- The block a transaction executes against is one the chain has. -/
theorem ensures_approachBoundary :
    Ensures (machine net) (outcomes law) pid (approachBoundary net cfg job)
      (fun r w' => r.2.2 ≤ w'.chain.tip) w := by
  have hq : ∀ {w : World} {o : Op}, o.quiet = true → From (outcomes law) pid w o := quietly_outcomes
  unfold approachBoundary
  refine ensures_seq (makes_unlessShutDown hq) fun _ w₁ _ => ?_
  refine ensures_seq (makes_pullState hq _) fun currentState w₂ _ => ?_
  refine ensures_guard fun _ => ?_
  refine ensures_seq (makes_ensureGuardedByThisGuardian job) fun _ w₃ _ => ?_
  refine ensures_seq (makes_executorStage job hq) fun _ w₄ _ => ?_
  refine Ensures.bind' ((ensures_orFail (ensures_asked (hq rfl))).mono fun block w₅ _ h => ?_)
  obtain ⟨_, _, ch, _, hpossible, rfl, _⟩ := h
  have hblock : ch.block ≤ w₅.chain.tip := of_decide_eq_true hpossible
  -- what follows returns this block
  refine Ensures.mono (Q := fun r _ => r.2.2 = ch.block) ?_
    fun r w' hle hr => hr ▸ hblock.trans hle.chain.tip
  refine ensures_seq (makes_advance job hq _) fun _ w₆ _ => ?_
  refine ensures_seq (makes_flag hq) fun _ w₇ _ => ?_
  refine ensures_guard fun _ => ?_
  split
  · exact Ensures.throw' _
  refine ensures_seq (makes_now hq) fun _ w₈ _ => ?_
  refine ensures_seq (makes_advance job hq _) fun _ w₉ _ => ?_
  refine ensures_seq (makes_executorStage job hq) fun _ w₁₀ _ => ?_
  refine ensures_seq (makes_flag hq) fun _ w₁₁ _ => ?_
  refine ensures_guard fun _ => ?_
  refine ensures_seq (makes_ensureWithinHorizon job _) fun _ w₁₂ _ => ?_
  refine ensures_seq (makes_advance job hq _) fun _ w₁₃ _ => ?_
  refine ensures_seq (makes_executorStage job hq) fun _ w₁₄ _ => ?_
  refine ensures_seq (makes_advance job hq _) fun _ w₁₅ _ => ?_
  refine ensures_seq (makes_executorStage job hq) fun _ w₁₆ _ => ?_
  refine ensures_seq (makes_ensureAdmissible job hq) fun _ w₁₇ _ => ?_
  refine ensures_seq (makes_ensureSendable hq) fun _ w₁₈ _ => ?_
  exact Ensures.pure' rfl

/-- An admission that was answered is recorded. -/
theorem ensures_admission {fence : LeaseFence} {a : CandidateAdmission}
    (ha : a.evidence.referenceBlock ≤ w.chain.tip) :
    Ensures (machine net) (outcomes law) pid
      (fenced fence (.admitExecutionCandidate a) : Proc ε _)
      (fun r w' => r = some .admitted → w'.db.Evidenced (a.proposalId, a.attempt) a.evidence) w := by
  refine ensures_seq (Makes.op' (quietly_outcomes rfl)) fun _ w₁ hle₁ => ?_
  refine Ensures.op' fun w₂ hle₂ hi => ⟨?_, fun ch r w₃ hx _ _ hr => ?_⟩
  · exact ha.trans (hle₁.chain.tip.trans hle₂.chain.tip)
  subst hr
  obtain ⟨current, db', _, hrun, rfl⟩ := exec_commit_answer hx
  obtain ⟨hne, _⟩ | ⟨_, had⟩ := Db.admitExecutionCandidate_cases hrun
  · exact absurd rfl hne
  obtain ⟨e, hactive, _, hpid, hattempt⟩ := had.active
  have he := (Db.activeExecution_eq_some hactive).1
  refine ⟨e.admitWith a.evidence, ?_, Prod.ext hpid hattempt, rfl⟩
  show _ ∈ db'.executions
  rw [had.executions, ← hpid, ← hattempt, hi.attempts.mem_update he]
  exact .inl rfl

theorem ensures_runToBoundary :
    Ensures (machine net) (outcomes law) pid (runToBoundary net cfg job)
      (fun evidence w' => w'.db.Evidenced (job.params.proposalId, job.attempt) evidence) w := by
  unfold runToBoundary
  refine Ensures.bind' ((ensures_approachBoundary job).mono fun r w₁ _ hblock => ?_)
  obtain ⟨applied, acknowledged, referenceBlock⟩ := r
  have hcross : Ensures (machine net) (outcomes law) pid
      (crossBoundary cfg job applied acknowledged referenceBlock)
      (fun _ w' => w'.db.Evidenced (job.params.proposalId, job.attempt)
        (evidence job applied referenceBlock)) w₁ := by
    unfold crossBoundary
    refine ensures_seq (makes_now quietly_outcomes) fun now w₂ hle₂ => ?_
    have hadmit := hblock.trans hle₂.chain.tip
    refine Ensures.bind' ((ensures_orFail (Q := fun a w' => a = .admitted → w'.db.Evidenced
      (job.params.proposalId, job.attempt) (evidence job applied referenceBlock))
      ((ensures_admission hadmit).mono fun r w₃ _ h a ha hr => h (ha.trans (congrArg some hr)))).mono
      fun answer w₃ _ h => ?_)
    split
    · exact Ensures.pure' (h rfl)
    all_goals exact Ensures.throw' _
  exact Ensures.bind' (hcross.mono fun _ w₂ _ hev => Ensures.pure' hev)

theorem ensures_submit (hev : w.db.Evidenced (job.params.proposalId, job.attempt) evidence) :
    Ensures (machine net) (outcomes law) pid (submit job evidence) (fun _ _ => True) w := by
  unfold submit
  have hsend : From (outcomes law) pid w
      (.node (.submitTransaction job.params.proposalId job.attempt evidence)) :=
    fun w' hle => hle.evidenced hev
  refine Ensures.bind' ((ensures_asked hsend).mono fun r w₁ hle h => ?_)
  have hrefused : ∀ {outcome}, r = some outcome → outcome ≠ .accepted →
      w₁.Condemned law (job.params.proposalId, job.attempt) evidence := by
    intro outcome hr hne
    obtain ⟨hi, _, ch, hfault, _, hrun, hrejected⟩ := h outcome hr
    have hin : (job.params.proposalId, job.attempt) ∈ w₁.ghost.rejected := by
      refine hrejected _ ?_
      have hsubmit : ch.submit = outcome := hrun.symm
      cases outcome with
      | accepted => exact absurd rfl hne
      | rejected | notProcessed => simp [NodeCall.refuses, hfault, hsubmit]
    have hev₁ := hle.evidenced hev
    exact ⟨hev₁, hi.executed hev₁, fun _ => ⟨hi.refused hin, .inl hin⟩⟩
  have hresolve : ∀ {outcome failure}, r = some outcome → outcome ≠ .accepted →
      Ensures (machine net) (outcomes law) pid (resolve job failure true) (fun _ _ => True) w₁ := by
    intro outcome failure hr hne
    refine ensures_of_makes ((makes_now quietly_outcomes).bind' fun _ => ?_)
    refine (makes_fenced (quietly_outcomes rfl) fun w' hle' => ?_).bind' fun _ => trivial
    exact ⟨evidence, (hrefused hr hne).climb hle'⟩
  split
  · exact hresolve rfl nofun
  · exact hresolve rfl nofun
  · exact Ensures.pure' trivial
  · exact Ensures.pure' trivial

theorem ensures_runExecution :
    Ensures (machine net) (outcomes law) pid (runExecution net cfg job) (fun _ _ => True) w := by
  have hq : ∀ {w : World} {o : Op}, o.quiet = true → From (outcomes law) pid w o := quietly_outcomes
  have hrelease : ∀ {w : World}, Ensures (machine net) (outcomes law) pid
      (releaseQuietly job.fence : Service _) (fun _ _ => True) w :=
    ensures_of_makes (makes_releaseQuietly hq _)
  unfold runExecution
  refine Ensures.bind' ((ensures_runToBoundary job).absorb_of.mono fun r w₁ _ hr => ?_)
  split
  · next evidence =>
    refine ensures_seq (makes_claimSend job hq _) fun claimed w₂ hle₂ => ?_
    split
    · refine Ensures.bind' ((ensures_submit job (hle₂.evidenced (hr _ rfl))).mono
        fun _ w₃ _ _ => hrelease)
    · exact hrelease
  · refine ensures_seq ((makes_now hq).bind' fun _ => ?_) fun _ w₂ _ => hrelease
    exact (makes_fenced (hq rfl) fails_outcomes).bind' fun _ => trivial
  · exact hrelease

end Worker

theorem ensures_reserveAndRun (params : RequestExecutionParams) (proposal : DeltaObject)
    (scheme : SignatureScheme) (guardian : Option String) (row : LeaseRow) :
    Ensures (machine net) (outcomes law) pid
      (reserveAndRun net cfg params proposal scheme guardian row) (fun _ _ => True) w := by
  have hq : ∀ {w : World} {o : Op}, o.quiet = true → From (outcomes law) pid w o := quietly_outcomes
  unfold reserveAndRun
  refine ensures_seq (makes_flag hq) fun _ w₁ _ => ?_
  split
  · exact ensures_seq (Worker.makes_releaseQuietly hq _) fun _ w₂ _ => Ensures.throw' _
  refine ensures_seq (makes_fenced (hq rfl) reserves_outcomes) fun answer w₂ _ => ?_
  split
  · exact Worker.ensures_runExecution _
  all_goals refine ensures_of_makes ((Worker.makes_releaseQuietly hq _).bind' fun _ => ?_)
  · split
    · refine (makes_orFail (makes_query hq _)).bind' fun _ => ?_
      split <;> trivial
    · trivial
  · trivial
  · trivial
  · exact makes_alreadyExecuting hq _
  · trivial

theorem ensures_requestExecution (params : RequestExecutionParams) :
    Ensures (machine net) (outcomes law) pid (requestExecution net cfg params)
      (fun _ _ => True) w := by
  have hZ : AfterQuiet (fun x => ∀ w, Ensures (machine net) (outcomes law) pid x
      (fun _ _ => True) w) :=
    ⟨fun hx w => ensures_of_makes (hx.mono fun _ => quietly_outcomes),
      fun hx hf w => ensures_seq (hx.mono fun _ => quietly_outcomes) fun a w' _ => hf a w'⟩
  refine hZ.requestExecution params (fun proposal scheme guardian w => ?_) w
  refine ensures_seq (makes_orFail (makes_lease quietly_outcomes _)) fun row w₁ _ => ?_
  split
  · exact ensures_of_makes (makes_alreadyExecuting quietly_outcomes _)
  · exact ensures_reserveAndRun _ _ _ _ _

/-- Every process keeps the discipline. -/
theorem body_outcomes (req : Request) :
    wp (machine net) (outcomes law) pid (body net cfg req) (fun _ _ => True) w := by
  have hreturns : ∀ {program : Service Unit},
      Ensures (machine net) (outcomes law) pid program (fun _ _ => True) w →
      wp (machine net) (outcomes law) pid (do let _ ← program.run; Prog.op Op.returns)
        (fun _ _ => True) w :=
    fun h => wp_bind (wp_mono h fun _ _ _ _ _ _ _ => ⟨trivial, fun _ _ _ _ _ _ => trivial⟩)
  cases hreq : req.isExecution with
  | true =>
    refine hreturns ?_
    cases req with
    | execute params => exact ensures_requestExecution params
    | heartbeat fence phase =>
      exact ensures_of_makes ((Worker.makes_renewal quietly_outcomes _ _).bind' fun _ => trivial)
    | reconcileExecutions holderId kind restarted =>
      exact Reconciler.ensures_pass holderId kind restarted
    | _ => cases hreq
  | false =>
    have hnot : req.isExecution ≠ true := by simp [hreq]
    have hfit : CallsFit net cfg req (From (outcomes law) pid w) :=
      ⟨quietly_outcomes, fun _ _ _ _ _ => trivial, fun _ _ _ => ⟨fun _ _ => trivial, fun _ _ => trivial⟩,
        fun _ _ => trivial, fun _ _ => trivial, fun h => absurd h hnot, fun h => absurd h hnot,
        fun h => absurd h hnot, fun h => absurd h hnot, fun h => absurd h hnot⟩
    have hcalls := body_calls_of_fit hfit (fun _ _ _ _ => trivial)
      (fun _ => ⟨fun _ _ _ _ => trivial, fun _ _ _ _ => trivial⟩) (fun _ _ => trivial)
      (fun _ _ => trivial)
    exact wp_of_calls hcalls fun o w' h hle => h w' hle

end Processes

theorem Reachable.sendInv {net : Network} (law : net.Lawful) {cfg : Config} {G : RunGuard}
    {w₀ : World} (hfresh : w₀.Fresh net) {c : SystemConf} (h : Reachable net cfg G w₀ c) :
    SendInv law c.world :=
  (Reach.wp (outcomes_kept law (Op.Fits net cfg)) (fun req _ _ => body_calls net cfg req)
    (.of_fresh hfresh) (fun _ req _ _ _ => body_outcomes req) h).1

/-- In every run, an execution recorded as failed has no transaction on chain,
provided its base was on chain at the block it executed against. -/
theorem landed_never_failed (net : Network) (law : net.Lawful) (cfg : Config) (w₀ : World)
    (hfresh : w₀.Fresh net) (c : SystemConf) (h : Reachable net cfg .any w₀ c)
    (e : ExecutionRecord) (he : e ∈ c.world.db.executions) (code : ExecutionFailureCode)
    (hfailed : e.outcome = some (.failed code))
    (hgrounded : ∀ evidence, e.evidence = some evidence → c.world.grounded evidence = true) :
    ∀ x ∈ c.world.chain.entries, x.execution ≠ some e.key := by
  have hi := Reachable.sendInv law hfresh h
  cases hev : e.evidence with
  | some evidence => exact (hi.failed he hfailed hev (hgrounded evidence hev)).absent
  | none =>
    -- what was not sent is not on chain
    intro x hx hk
    obtain ⟨evidence, hevidenced, _⟩ := hi.landed hx hk
    rw [hi.attempts.evidence_eq he hevidenced] at hev
    cases hev

/-- An execution a node refuses. -/
theorem landed_never_failed_rejected :
    ∃ c, Reachable (.letters 0) Demo.config .any (Demo.world 0) c ∧
      ∃ e ∈ c.world.db.executions, e.outcome = some (.failed .submissionRejected) ∧
        e.evidence ≠ none ∧ ∀ x ∈ c.world.chain.entries, x.execution ≠ some e.key := by
  obtain ⟨c, hc, htest⟩ := Demo.reachable_after 0 .any (Demo.world 0)
    (Demo.executing 63 50 ++ .run 1 { submit := .rejected } :: Demo.calls 1 3 1)
    (fun c : SystemConf => c.world.db.executions.any (fun e =>
      decide (e.outcome = some (.failed .submissionRejected) ∧ e.evidence ≠ none) &&
        e.evidence.all c.world.grounded)) (by decide +kernel)
  obtain ⟨e, he, htest⟩ := List.any_eq_true.mp htest
  obtain ⟨hout, hgrounded⟩ := Bool.and_eq_true_iff.mp htest
  obtain ⟨hfailed, hev⟩ := of_decide_eq_true hout
  refine ⟨c, hc, e, he, hfailed, hev, landed_never_failed _ (Network.lettersLawful 0) Demo.config _
    (Demo.fresh_world 0) c hc e he _ hfailed fun evidence heq => ?_⟩
  rw [heq] at hgrounded
  exact hgrounded

/-- The account reaches `stu` at block 3 and is configured there. -/
def Demo.atThird : List (Event Request Choice Act) :=
  [.env (.mine [⟨"s", "t", none⟩]), .env (.mine [⟨"st", "u", none⟩]),
    .spawn 0 (.configure ⟨"stu", .midenFalconRpo ["old"], "old"⟩)] ++ Demo.calls 0 6 3

/-- An execution of the letter `v` on `stu`. -/
def Demo.third : RequestExecutionParams :=
  { Demo.execution 50 with proposalId := "v", summaryPayload := "v" }

/-- A worker whose node is at block 2 executes and sends the letter `v` on
`stu`, and stops. The reconciler's node, at block 2 too, has the account at `st`. -/
def Demo.discarded : List (Event Request Choice Act) :=
  Demo.atThird ++ .spawn 1 (.submitProposal ⟨"v", Demo.delta 1 "stu" "v"⟩) :: Demo.calls 1 2 2 ++
    .spawn 2 (.execute Demo.third) :: Demo.calls 2 64 2 ++
    [.env (.crash 2), .env (.tick 100), .spawn 3 (.reconcileExecutions "reconciler" .steady false)] ++
    Demo.calls 3 18 2

theorem landed_recorded_failed :
    ¬∀ c, Reachable (.letters 0) Demo.config .any Demo.unconfigured c →
      ∀ e ∈ c.world.db.executions, ∀ code, e.outcome = some (.failed code) →
        ∀ x ∈ c.world.chain.entries, x.execution ≠ some e.key := by
  intro hall
  obtain ⟨c, hc, htest⟩ := Demo.reachable_after 0 .any Demo.unconfigured
    (Demo.discarded ++ [.env (.mine [⟨"stu", "v", some ("v", 1)⟩])])
    (fun c : SystemConf => c.world.db.executions.any (fun e =>
      decide (e.outcome = some (.failed .candidateDiscarded)) &&
        c.world.chain.entries.any (fun x => decide (x.execution = some e.key)))) (by decide +kernel)
  obtain ⟨e, he, htest⟩ := List.any_eq_true.mp htest
  obtain ⟨hfailed, hlanded⟩ := Bool.and_eq_true_iff.mp htest
  obtain ⟨x, hx, hkey⟩ := List.any_eq_true.mp hlanded
  exact hall c hc e he _ (of_decide_eq_true hfailed) x hx (of_decide_eq_true hkey)

end Guardian
