import Mathlib.Data.List.Nodup
import Guardian.Rows

/- The queue is one chain. The gate looks at the queue of one moment, and
   candidates leave it from any place at any time, so neighbours need not chain
   any more. What stays is that a candidate with a larger nonce builds on the
   ones with smaller nonces, through deltas that were queued at some time: a new
   candidate is let in only behind the tail of a queue that chains, and nothing
   a process does afterwards moves a candidate's nonce, base or post commitment.

   Ranks rule out cycles: with them no candidate descends from a later one,
   and no two share a base, as long as every queued delta changes the state.

   An empty delta ends at its own base. The gate takes it for the tail, whose post
   commitment is the stored one, and lets the next delta in on the same base:
   `empty_delta_shares_its_base`. -/
namespace Guardian

open Interleaving Relation

/-- A queued delta leads from `a` to `b`. -/
def Link (admitted : List DeltaObject) (a b : Commitment) : Prop :=
  ∃ d ∈ admitted, d.prevCommitment = a ∧ d.newCommitment = some b

/-- The invariant behind the chain: what was queued leads from its base, the
queue holds only such deltas, and larger nonces build on smaller ones. -/
structure QueueInv (net : Network) (depth : Nat) (w : World) : Prop where
  steps : ∀ {d}, d ∈ w.ghost.admitted → ∃ new, d.newCommitment = some new ∧
    net.Step d.prevCommitment new ∧ d.prevCommitment ≠ new
  known : ∀ {r}, r ∈ w.db.deltas → r.delta.status.isCandidate = true →
    ∃ d ∈ w.ghost.admitted, SameDelta r.delta d
  ordered : ∀ {a b}, a ∈ w.db.deltas → b ∈ w.db.deltas → a.delta.status.isCandidate = true →
    b.delta.status.isCandidate = true → a.delta.nonce < b.delta.nonce →
    TransGen (Link w.ghost.admitted) a.delta.prevCommitment b.delta.prevCommitment
  length : w.db.candidates.length ≤ max depth 1

section Chains
variable {net : Network} {admitted : List DeltaObject}

theorem Link.mono {admitted' : List DeltaObject} (h : ∀ d ∈ admitted, d ∈ admitted')
    {a b : Commitment} (hl : TransGen (Link admitted) a b) : TransGen (Link admitted') a b := by
  refine TransGen.mono ?_ _ _ hl
  rintro _ _ ⟨d, hd, hprev, hnew⟩
  exact ⟨d, h d hd, hprev, hnew⟩

theorem rank_le_of_reaches (law : net.Coherent) {a b : Commitment}
    (h : ReflTransGen net.Step a b) : law.rank a ≤ law.rank b := by
  induction h with
  | refl => exact le_rfl
  | @tail x y _ hs ih =>
    by_cases heq : x = y
    · exact heq ▸ ih
    · exact ih.trans (law.rank_lt_of_ne hs heq).le

/-- Links raise the rank. -/
theorem Link.rank_lt (law : net.Coherent)
    (hsteps : ∀ {d}, d ∈ admitted → ∃ new, d.newCommitment = some new ∧
      net.Step d.prevCommitment new ∧ d.prevCommitment ≠ new) {a b : Commitment} (h : TransGen (Link admitted) a b) :
    law.rank a < law.rank b := by
  have hone : ∀ {a b}, Link admitted a b → law.rank a < law.rank b := by
    rintro a b ⟨d, hd, rfl, hnew⟩
    obtain ⟨new, hnew', hstep, hne⟩ := hsteps hd
    rw [hnew'] at hnew
    cases hnew
    exact law.rank_lt_of_ne hstep hne
  induction h with
  | single h => exact hone h
  | tail _ h ih => exact ih.trans (hone h)

/-- In a queue that chains, every candidate leads to the end. -/
theorem Chained.leads {rows : List DeltaRow} {stored : Commitment}
    (h : Chained stored (rows.map (fun r => .of r.delta)))
    (hknown : ∀ r ∈ rows, ∃ d ∈ admitted, SameDelta r.delta d) {last : DeltaRow}
    (hlast : rows.getLast? = some last) {a : DeltaRow} (ha : a ∈ rows) :
    a = last ∨ TransGen (Link admitted) a.delta.prevCommitment last.delta.prevCommitment := by
  induction rows generalizing stored a with
  | nil => cases ha
  | cons r rows ih =>
    obtain ⟨hprev, next, hnext, hrest⟩ := h
    cases rows with
    | nil =>
      cases hlast
      exact .inl (List.mem_singleton.mp ha)
    | cons r' rows =>
      have hlast' : (r' :: rows).getLast? = some last := by simpa using hlast
      have hknown' : ∀ r ∈ r' :: rows, ∃ d ∈ admitted, SameDelta r.delta d :=
        fun r hr => hknown r (.tail _ hr)
      rcases List.mem_cons.mp ha with rfl | ha
      · -- one link to the next candidate, and on from there
        obtain ⟨d, hd, hsame⟩ := hknown a List.mem_cons_self
        have hlink : Link admitted a.delta.prevCommitment r'.delta.prevCommitment := by
          refine ⟨d, hd, hsame.prevCommitment.symm, ?_⟩
          have hbase : r'.delta.prevCommitment = next := hrest.1
          rw [← hsame.newCommitment, hbase]
          exact hnext
        rcases ih hrest hknown' hlast' List.mem_cons_self with rfl | hlead
        · exact .inr (.single hlink)
        · exact .inr (hlead.head hlink)
      · exact ih hrest hknown' hlast' ha

end Chains

namespace QueueInv
variable {net : Network} {cfg : Config} {depth pid : Nat} {op : Op} {w w' : World}

/-- Smaller nonces have bases of smaller rank. -/
theorem rank_lt (h : QueueInv net depth w) (law : net.Coherent) {a b : DeltaRow}
    (ha : a ∈ w.db.candidates) (hb : b ∈ w.db.candidates) (hlt : a.delta.nonce < b.delta.nonce) :
    law.rank a.delta.prevCommitment < law.rank b.delta.prevCommitment := by
  obtain ⟨ha, hac⟩ := Table.mem_select.mp ha
  obtain ⟨hb, hbc⟩ := Table.mem_select.mp hb
  exact Link.rank_lt law h.steps (h.ordered ha hb hac hbc hlt)

/-- A submission the gate lets through is behind every queued candidate. -/
theorem extends_all (h : QueueInv net depth w) (law : net.Coherent) {delta : DeltaObject} {now : Time}
    {policy : CandidatePolicy} (hs : Db.Submitted delta now policy w.db w'.db) {a : DeltaRow}
    (ha : a ∈ w.db.candidates) : a.delta.nonce < delta.nonce ∧
      TransGen (Link w.ghost.admitted) a.delta.prevCommitment delta.prevCommitment := by
  obtain ⟨state, _, hgate⟩ := hs.gate
  obtain ⟨_, hchained, hextends⟩ := gate_eq_none_iff.mp hgate
  have hknown : ∀ r ∈ w.db.candidates, ∃ d ∈ w.ghost.admitted, SameDelta r.delta d := by
    intro r hr
    obtain ⟨hr, hrc⟩ := Table.mem_select.mp hr
    exact h.known hr hrc
  cases hlast : w.db.candidates.getLast? with
  | none =>
    rw [List.getLast?_eq_none_iff.mp hlast] at ha
    cases ha
  | some last =>
    have hmem : last ∈ w.db.candidates := List.mem_of_getLast? hlast
    have htail : last.delta.newCommitment = some delta.prevCommitment ∧
        last.delta.nonce < delta.nonce := by
      simpa [ExtendsTail, Db.queue, List.getLast?_map, hlast, QueuedCandidate.of] using hextends
    obtain ⟨d, hd, hsame⟩ := hknown last hmem
    have hlink : Link w.ghost.admitted last.delta.prevCommitment delta.prevCommitment :=
      ⟨d, hd, hsame.prevCommitment.symm, hsame.newCommitment ▸ htail.1⟩
    rcases Chained.leads hchained hknown hlast ha with rfl | hlead
    · exact ⟨htail.2, .single hlink⟩
    · refine ⟨?_, hlead.tail hlink⟩
      -- the tail's base descends from this one's, so its nonce is not the smaller
      have hrank := Link.rank_lt law h.steps hlead
      have hle : ¬last.delta.nonce < a.delta.nonce := fun hlt =>
        absurd (h.rank_lt law hmem ha hlt) (not_lt.mpr hrank.le)
      have htail := htail.2
      bv_omega

/-- The delta a call queues is behind every queued candidate. -/
theorem queued_behind (h : QueueInv net depth w) (law : net.Coherent) {delta : DeltaObject}
    (hq : Queued w.db w'.db op delta) {a : DeltaRow} (ha : a ∈ w.db.candidates) :
    a.delta.nonce < delta.nonce ∧
      TransGen (Link w.ghost.admitted) a.delta.prevCommitment delta.prevCommitment := by
  cases hq with
  | submitted hs => exact h.extends_all law hs ha
  | admitted had =>
    -- an execution is admitted only into an empty queue
    obtain ⟨hmem, hc⟩ := Table.mem_select.mp ha
    rw [Db.hasCandidate_eq_false.mp had.idle a hmem] at hc
    cases hc

/-- A call queues at most one delta, and only below the depth. -/
theorem room (hq : Queued w.db w'.db op delta) (hfits : op.Fits net cfg) :
    w.db.candidates.length + 1 ≤ max cfg.maxPendingCandidatesPerAccount 1 := by
  cases hq with
  | submitted hs =>
    obtain ⟨_, _, hgate⟩ := hs.gate
    have hlen := (gate_eq_none_iff.mp hgate).1
    rw [hfits.1] at hlen
    simp only [Db.queue, List.length_map, Config.candidatePolicy, Config.maxPendingCandidates] at hlen
    omega
  | admitted had =>
    have hnil : w.db.candidates = [] := by
      refine List.eq_nil_iff_forall_not_mem.mpr fun r hr => ?_
      obtain ⟨hr, hrc⟩ := Table.mem_select.mp hr
      rw [Db.hasCandidate_eq_false.mp had.idle r hr] at hrc
      cases hrc
    rw [hnil]
    simp

/-- The candidates of a world, by column, are those of the world before it and
the one a call queued. -/
theorem length_le (h : Effect pid w op w') (hfits : op.Fits net cfg)
    (hlen : w.db.candidates.length ≤ max cfg.maxPendingCandidatesPerAccount 1) :
    w'.db.candidates.length ≤ max cfg.maxPendingCandidatesPerAccount 1 := by
  have hnodup : (w'.db.candidates.map (·.column)).Nodup :=
    List.Pairwise.map _ (fun _ _ hlt => hlt.ne) (Table.sorted_select _ _)
  by_cases hq : ∃ delta, Queued w.db w'.db op delta
  · obtain ⟨delta, hq⟩ := hq
    have hsub : w'.db.candidates.map (·.column) ⊆
        nonceColumn delta.nonce :: w.db.candidates.map (·.column) := by
      intro n hn
      obtain ⟨r, hr, rfl⟩ := List.mem_map.mp hn
      obtain ⟨hr, hrc⟩ := Table.mem_select.mp hr
      rcases hq.inserts.mem.mp hr with rfl | ⟨hr, _⟩
      · exact List.mem_cons_self
      · exact .tail _ (List.mem_map_of_mem (Table.mem_select.mpr ⟨hr, hrc⟩))
    have hle := (hnodup.subperm hsub).length_le
    have hroom := room hq hfits
    simp only [List.length_cons, List.length_map] at hle
    omega
  · have hsub : w'.db.candidates.map (·.column) ⊆ w.db.candidates.map (·.column) := by
      intro n hn
      obtain ⟨r, hr, rfl⟩ := List.mem_map.mp hn
      obtain ⟨hr, hrc⟩ := Table.mem_select.mp hr
      rcases h.candidate_cases hfits hr hrc with ⟨row, hrow, hrowc, _, hsame⟩ | ⟨delta, hd, _⟩
      · refine List.mem_map.mpr ⟨row, Table.mem_select.mpr ⟨hrow, hrowc⟩, ?_⟩
        exact congrArg nonceColumn hsame.nonce.symm
      · exact absurd ⟨delta, hd⟩ hq
    have hle := (hnodup.subperm hsub).length_le
    simp only [List.length_map] at hle
    omega

/-- Every call that queues no empty delta keeps the invariant. -/
theorem of_effect (law : net.Coherent) (hfits : op.Fits net cfg) (h : Effect pid w op w')
    (hmoves : ∀ {delta}, Queued w.db w'.db op delta →
      delta.newCommitment ≠ some delta.prevCommitment)
    (hi : QueueInv net cfg.maxPendingCandidatesPerAccount w) :
    QueueInv net cfg.maxPendingCandidatesPerAccount w' where
  steps := by
    intro d hd
    rcases h.admitted_cases with heq | ⟨delta, hq, heq⟩
    · exact hi.steps (heq ▸ hd)
    · rw [heq] at hd
      rcases List.mem_cons.mp hd with rfl | hd
      · obtain ⟨-, new, hnew, hleads⟩ := hq.queues hfits
        exact ⟨new, hnew, hleads.step, fun heq => hmoves hq (hnew.trans (congrArg some heq.symm))⟩
      · exact hi.steps hd
  known := by
    intro r hr hrc
    rcases h.candidate_cases hfits hr hrc with ⟨row, hrow, hrowc, _, hsame⟩ | ⟨delta, hq, rfl⟩
    · obtain ⟨d, hd, hsame'⟩ := hi.known hrow hrowc
      exact ⟨d, h.admitted_mono hd, hsame.trans hsame'⟩
    · exact ⟨delta, by rw [h.noted hq]; exact List.mem_cons_self, .refl _⟩
  ordered := by
    intro a b ha hb hac hbc hlt
    have hmono : ∀ d ∈ w.ghost.admitted, d ∈ w'.ghost.admitted := fun _ => h.admitted_mono
    rcases h.candidate_cases hfits ha hac with ⟨a', ha', hac', _, hsa⟩ | ⟨delta, hq, rfl⟩
    · rcases h.candidate_cases hfits hb hbc with ⟨b', hb', hbc', _, hsb⟩ | ⟨delta, hq, rfl⟩
      · rw [hsa.nonce, hsb.nonce] at hlt
        rw [hsa.prevCommitment, hsb.prevCommitment]
        exact Link.mono hmono (hi.ordered ha' hb' hac' hbc' hlt)
      · rw [hsa.prevCommitment]
        exact Link.mono hmono (hi.queued_behind law hq (Table.mem_select.mpr ⟨ha', hac'⟩)).2
    · -- nothing queued has a nonce above the one that was just queued
      rcases hq.inserts.mem.mp hb with rfl | ⟨hb, _⟩
      · exact absurd hlt (BitVec.lt_irrefl _)
      · have hbehind := (hi.queued_behind law hq (Table.mem_select.mpr ⟨hb, hbc⟩)).1
        simp only at hlt
        bv_omega
  length := length_le h hfits hi.length

theorem of_fresh (h : w.Fresh net) : QueueInv net depth w where
  steps := by
    intro d hd
    rw [h.ghost] at hd
    cases hd
  known := by
    intro r hr
    rw [h.deltas] at hr
    exact absurd hr (Table.not_mem_empty r)
  ordered := by
    intro a b ha
    rw [h.deltas] at ha
    exact absurd ha (Table.not_mem_empty a)
  length := by
    simp [Db.candidates, h.deltas, Table.select, Table.empty]

theorem of_act (h : ActEffect net w w') (hi : QueueInv net depth w) : QueueInv net depth w' := by
  cases h <;> exact ⟨hi.steps, hi.known, hi.ordered, hi.length⟩

/-- On a lawful network no queued delta is empty. -/
theorem moves (law : net.Lawful) (hfits : op.Fits net cfg) {delta : DeltaObject}
    (hq : Queued w.db w'.db op delta) : delta.newCommitment ≠ some delta.prevCommitment := by
  intro hempty
  obtain ⟨-, new, hnew, hleads⟩ := hq.queues hfits
  rw [hnew] at hempty
  exact law.moves hleads.step (Option.some.inj hempty).symm

end QueueInv

/-! ## One chain -/

/-- `d` is queued before `nonce`, or queued no more. -/
def Db.Passed (db : Db) (nonce : Nonce) (d : DeltaObject) : Prop :=
  ∀ r ∈ db.candidates, SameDelta r.delta d → r.delta.nonce < nonce

/-- The queue is one chain of at most `depth` candidates. -/
structure World.OneChain (net : Network) (depth : Nat) (w : World) : Prop where
  length : w.db.candidates.length ≤ depth
  distinct : ∀ a ∈ w.db.candidates, ∀ b ∈ w.db.candidates,
    a.delta.prevCommitment = b.delta.prevCommitment → a = b
  /-- A later base is reached from an earlier one through post commitments of
  earlier queued or since-removed candidates. -/
  reached : ∀ first ∈ w.db.candidates, ∀ later ∈ w.db.candidates,
    first.delta.nonce < later.delta.nonce →
    ReflTransGen (fun a b => ∃ d ∈ w.ghost.admitted, w.db.Passed later.delta.nonce d ∧
      d.prevCommitment = a ∧ d.newCommitment = some b)
      first.delta.prevCommitment later.delta.prevCommitment
  /-- No candidate precedes one it descends from. -/
  ordered : ∀ a ∈ w.db.candidates, ∀ b ∈ w.db.candidates, ∀ new,
    b.delta.newCommitment = some new → ReflTransGen net.Step new a.delta.prevCommitment →
    b.delta.nonce < a.delta.nonce

namespace QueueInv
variable {net : Network} {depth : Nat} {w : World}

/-- A base of smaller rank belongs to a smaller nonce. -/
theorem nonce_lt (h : QueueInv net depth w) (law : net.Coherent) {a b : DeltaRow}
    (ha : a ∈ w.db.candidates) (hb : b ∈ w.db.candidates)
    (hrank : law.rank a.delta.prevCommitment < law.rank b.delta.prevCommitment) :
    a.delta.nonce < b.delta.nonce := by
  by_contra hnlt
  by_cases heq : a.delta.nonce = b.delta.nonce
  · have hrow : a = b :=
      Db.eq_of_nonce (Table.mem_select.mp ha).1 (Table.mem_select.mp hb).1 heq
    rw [hrow] at hrank
    exact lt_irrefl _ hrank
  · have hlt : b.delta.nonce < a.delta.nonce := by bv_omega
    exact lt_asymm hrank (h.rank_lt law hb ha hlt)

/-- The deltas on the way to a base are queued before it, or no more. -/
theorem reached_through (h : QueueInv net depth w) (law : net.Coherent) {later : DeltaRow}
    (hlater : later ∈ w.db.candidates) {a : Commitment}
    (hlead : TransGen (Link w.ghost.admitted) a later.delta.prevCommitment) :
    ReflTransGen (fun a b => ∃ d ∈ w.ghost.admitted, w.db.Passed later.delta.nonce d ∧
      d.prevCommitment = a ∧ d.newCommitment = some b) a later.delta.prevCommitment := by
  have hpassed : ∀ {d b}, d ∈ w.ghost.admitted → d.newCommitment = some b →
      law.rank b ≤ law.rank later.delta.prevCommitment → w.db.Passed later.delta.nonce d := by
    intro d b hd hnew hle r hr hsame
    obtain ⟨new, hnew', hstep, hne⟩ := h.steps hd
    rw [hnew] at hnew'
    cases hnew'
    refine h.nonce_lt law hr hlater ?_
    rw [hsame.prevCommitment]
    exact (law.rank_lt_of_ne hstep hne).trans_le hle
  induction hlead using TransGen.head_induction_on with
  | single hlink =>
    obtain ⟨d, hd, hprev, hnew⟩ := hlink
    exact .single ⟨d, hd, hpassed hd hnew le_rfl, hprev, hnew⟩
  | head hlink hrest ih =>
    obtain ⟨d, hd, hprev, hnew⟩ := hlink
    have hle := (Link.rank_lt law h.steps hrest).le
    exact .head ⟨d, hd, hpassed hd hnew hle, hprev, hnew⟩ ih

theorem oneChain (h : QueueInv net depth w) (law : net.Coherent) (hdepth : 1 ≤ depth) :
    w.OneChain net depth where
  length := by
    have := h.length
    omega
  distinct := by
    intro a ha b hb hbase
    by_contra hne
    have hnonce : a.delta.nonce ≠ b.delta.nonce := fun heq =>
      hne (Db.eq_of_nonce (Table.mem_select.mp ha).1 (Table.mem_select.mp hb).1 heq)
    rcases (by bv_omega : a.delta.nonce < b.delta.nonce ∨ b.delta.nonce < a.delta.nonce) with hlt | hlt
    · exact absurd (h.rank_lt law ha hb hlt) (by rw [hbase]; exact lt_irrefl _)
    · exact absurd (h.rank_lt law hb ha hlt) (by rw [hbase]; exact lt_irrefl _)
  reached := by
    intro first hfirst later hlater hlt
    have ⟨hf, hfc⟩ := Table.mem_select.mp hfirst
    have ⟨hl, hlc⟩ := Table.mem_select.mp hlater
    exact h.reached_through law hlater (h.ordered hf hl hfc hlc hlt)
  ordered := by
    intro a ha b hb new hnew hdescends
    refine h.nonce_lt law hb ha ?_
    obtain ⟨hbm, hbc⟩ := Table.mem_select.mp hb
    obtain ⟨d, hd, hsame⟩ := h.known hbm hbc
    obtain ⟨new', hnew', hstep, hne⟩ := h.steps hd
    rw [← hsame.newCommitment, hnew] at hnew'
    cases hnew'
    rw [hsame.prevCommitment]
    exact (law.rank_lt_of_ne hstep hne).trans_le (rank_le_of_reaches law hdescends)

end QueueInv

/-- Runs in which no queued delta ends at its own base. -/
def movingRuns : RunGuard :=
  .calls (fun _ _ w w' => decide (∀ delta ∈ w.newlyQueued w',
    delta.newCommitment ≠ some delta.prevCommitment))

theorem QueueInv.of_moving {net : Network} (law : net.Coherent) {cfg : Config} {w₀ : World}
    (hfresh : w₀.Fresh net) {c : SystemConf} (h : Reachable net cfg movingRuns w₀ c) :
    QueueInv net cfg.maxPendingCandidatesPerAccount c.world := by
  refine Reach.induct (K := fun _ op _ => op.Fits net cfg)
    (fun hr hp => hr.calls (fun req _ _ => body_calls net cfg req) hp)
    (QueueInv.of_fresh hfresh) (fun hfits hguard hx hi => ?_)
    (fun _ hact hi => hi.of_act (act_effect hact)) h
  have hmoves := of_decide_eq_true (RunGuard.calls_ok hguard hx)
  obtain ⟨-, heffect⟩ := exec_effect hx
  exact QueueInv.of_effect law hfits heffect
    (fun {delta} hq => hmoves delta (heffect.mem_newlyQueued hq)) hi

/-- In every run in which no queued delta ends at its own base, for every depth
limit, the queue is one chain. -/
theorem queue_is_one_chain (net : Network) (law : net.Coherent) (cfg : Config)
    (hdepth : 1 ≤ cfg.maxPendingCandidatesPerAccount) (w₀ : World) (hfresh : w₀.Fresh net)
    (c : SystemConf) (h : Reachable net cfg movingRuns w₀ c) :
    c.world.OneChain net cfg.maxPendingCandidatesPerAccount := by
  exact (QueueInv.of_moving law hfresh h).oneChain law hdepth

/-- Two pushes, the second on top of the first. -/
theorem queue_is_one_chain_pushed :
    ∃ c, Reachable (.letters 0) Demo.config movingRuns (Demo.world 0) c ∧
      c.world.db.candidates.length = 2 ∧ c.world.OneChain (.letters 0) 4 := by
  obtain ⟨c, hc, hq⟩ := Demo.reachable_after 0 movingRuns (Demo.world 0)
    (Demo.pushed ++ .spawn 1 (.push (Demo.delta 2 "st" "u")) :: Demo.calls 1 9 1)
    (fun c => c.world.db.candidates.length == 2) (by decide +kernel)
  exact ⟨c, hc, by simpa using hq, queue_is_one_chain _ (Network.lettersLawful 0).toCoherent
    Demo.config (by decide) _ (Demo.fresh_world 0) c hc⟩

/-- An empty delta is pushed on the account's first state, and then a letter. -/
def Demo.pushedEmpty : List (Event Request Choice Act) :=
  .spawn 0 (.push (Demo.delta 1 "s" "")) :: Demo.calls 0 9 1 ++
    .spawn 1 (.push (Demo.delta 2 "s" "t")) :: Demo.calls 1 9 1

/-- Both are queued, on one base. -/
theorem empty_delta_shares_its_base :
    ¬∀ (net : Network) (_ : net.Coherent) (cfg : Config),
      1 ≤ cfg.maxPendingCandidatesPerAccount → ∀ w₀ : World, w₀.Fresh net →
      ∀ c, Reachable net cfg .any w₀ c →
        c.world.OneChain net cfg.maxPendingCandidatesPerAccount := by
  intro hall
  have hrun : (runEvents (machine (.words 1)) (body (.words 1) Demo.config) .any
      (.start (Demo.world 1)) Demo.pushedEmpty).any (fun c : SystemConf =>
        decide (∃ a ∈ c.world.db.candidates, ∃ b ∈ c.world.db.candidates,
          a.delta.prevCommitment = b.delta.prevCommitment ∧ a.delta.nonce ≠ b.delta.nonce)) =
      true := by decide +kernel
  obtain ⟨c, hc, hshared⟩ := (Option.any_eq_true ..).mp hrun
  obtain ⟨a, ha, b, hb, hbase, hne⟩ := of_decide_eq_true hshared
  have hfresh : (Demo.world 1).Fresh (.words 1) := World.fresh_configured (Demo.isState_s 1)
  have hchain := hall _ (Network.wordsCoherent 1) Demo.config (by decide) _ hfresh c
    (Reach.init.runEvents hc)
  have heq : a = b := hchain.distinct a ha b hb hbase
  exact hne (congrArg (·.delta.nonce) heq)

end Guardian
