import Guardian.Held
import Guardian.Safety.ChainHistory
import Guardian.Safety.Queue

/- What the server makes sure of before it moves the stored state. A promotion
   goes one step on from its base, to a commitment a node has reported or one
   that lies between the stored commitment and a reported one; a `/configure`
   stores a commitment a node has vouched for.

   A pass knows the second kind from the order of its snapshot: what is queued
   behind a candidate descends from it. The snapshot is in the order of the
   nonce column, which is the order of the nonces below `2^63` only, so the
   discipline promises it as long as no such nonce was queued (`Astray`). -/
namespace Guardian

open Interleaving Service Relation

/-- What is stored need not be on chain: a commitment was stored that was not,
or a candidate was queued whose nonce the column does not order. -/
def World.Astray (w : World) : Prop :=
  w.ghost.wideNonce = true ∨ w.ghost.offChainStored = true

/-- What holds of the chain, the queue and the state row in every run. -/
structure LandingInv (net : Network) (cfg : Config) (w : World) : Prop where
  chain : w.chain.Sound net
  queue : QueueInv net cfg.maxPendingCandidatesPerAccount w
  follows : ∀ {a b new}, a ∈ w.db.deltas → b ∈ w.db.deltas → a.delta.status.isCandidate = true →
    b.delta.status.isCandidate = true → a.delta.nonce < b.delta.nonce →
    a.delta.newCommitment = some new → ReflTransGen net.Step new b.delta.prevCommitment
  narrow : w.ghost.wideNonce = false → ∀ {d}, d ∈ w.ghost.admitted → d.nonce.toNat < 2^63
  state : ∀ {s}, w.db.state = some s →
    net.IsState s.stateJson s.commitment ∧ s.commitment ∈ w.ghost.storedLog
  unconfigured : w.db.state = none → w.ghost.storedLog = []
  stored : w.ghost.offChainStored = false → ∀ {x}, x ∈ w.ghost.storedLog → x ∈ w.chain.history

/-- What only grows: the account's history, what was stored, and what went
wrong. -/
structure World.Climbs (w w' : World) : Prop where
  history : ∀ {x}, x ∈ w.chain.history → x ∈ w'.chain.history
  log : ∀ {x}, x ∈ w.ghost.storedLog → x ∈ w'.ghost.storedLog
  wide : w.ghost.wideNonce = true → w'.ghost.wideNonce = true
  off : w.ghost.offChainStored = true → w'.ghost.offChainStored = true
  stale : w.ghost.staleVouch = true → w'.ghost.staleVouch = true

/-- What is made sure of before the state row is written. -/
def LandingOk (net : Network) (w : World) : Op → Prop
  | .commit (.promoteCandidate p) => net.IsState p.state.stateJson p.state.commitment ∧
    net.Step p.delta.prevCommitment p.state.commitment ∧
    (w.Astray ∨ p.state.commitment ∈ w.chain.history)
  | .write (.submitState state _) =>
    (state.nonce = some 0 ∧ net.validateFirstState state.stateJson = true) ∨
      state.commitment ∈ w.chain.history
  | .write (.replaceState state expected) => w.Astray ∨ (state.commitment ∈ w.chain.history ∧
    (w.ghost.staleVouch = true ∨ ReflTransGen net.Step expected state.commitment))
  | _ => True

/-- The discipline of the processes that move the stored state. -/
def landing (net : Network) (cfg : Config) : Discipline Op World where
  inv := LandingInv net cfg
  le := World.Climbs
  ok := fun _ op w => LandingOk net w op
  le_refl := fun _ => ⟨id, id, id, id, id⟩
  le_trans := fun h h' => ⟨fun hx => h'.history (h.history hx), fun hx => h'.log (h.log hx),
    fun hx => h'.wide (h.wide hx), fun hx => h'.off (h.off hx), fun hx => h'.stale (h.stale hx)⟩

theorem World.Climbs.astray {w w' : World} (h : w.Climbs w') (ha : w.Astray) : w'.Astray := by
  rcases ha with ha | ha
  · exact .inl (h.wide ha)
  · exact .inr (h.off ha)

section Kept
variable {net : Network} {cfg : Config} {pid : Nat} {op : Op} {w w' : World}

theorem Effect.climbs (h : Effect pid w op w') : w.Climbs w' where
  history := fun hx => h.chain_eq ▸ hx
  log := by
    intro x hx
    rcases h.state_cases with ⟨_, heq, _⟩ | ⟨_, _, _, heq, _⟩
    · exact heq ▸ hx
    · exact heq ▸ .tail _ hx
  wide := by
    intro hw
    cases h with
    | submitted | admitted => exact Bool.or_eq_true_iff.mpr (.inl hw)
    | _ => exact hw
  off := by
    intro ho
    rcases h.state_cases with ⟨_, _, heq⟩ | ⟨_, _, _, _, heq⟩
    · exact heq ▸ ho
    · rw [heq, ho]
      rfl
  stale := by
    intro hs
    cases h with
    | asked => exact Bool.or_eq_true_iff.mpr (.inl hs)
    | _ => exact hs

theorem ActEffect.climbs (h : ActEffect net w w') : w.Climbs w' := by
  refine ⟨Chain.history_mono h, ?_, ?_, ?_, ?_⟩ <;> cases h <;> exact id

/-- In a queue that chains, the post commitment of every candidate leads to the
last one's. -/
theorem Chained.reaches {rows : List DeltaRow} {stored : Commitment}
    (h : Chained stored (rows.map (fun r => .of r.delta)))
    (hsteps : ∀ r ∈ rows, ∃ new, r.delta.newCommitment = some new ∧
      net.Step r.delta.prevCommitment new) {last : DeltaRow}
    (hlast : rows.getLast? = some last) {tail : Commitment}
    (htail : last.delta.newCommitment = some tail) {a : DeltaRow} (ha : a ∈ rows)
    {new : Commitment} (hnew : a.delta.newCommitment = some new) :
    ReflTransGen net.Step new tail := by
  induction rows generalizing stored a new with
  | nil => cases ha
  | cons r rows ih =>
    obtain ⟨hprev, next, hnext, hrest⟩ := h
    cases rows with
    | nil =>
      have hone : r = last := by simpa using hlast
      rw [List.mem_singleton.mp ha, hone, htail] at hnew
      cases hnew
      exact .refl
    | cons r' rows =>
      have hlast' : (r' :: rows).getLast? = some last := by simpa using hlast
      have hsteps' := fun r hr => hsteps r (.tail _ hr)
      rcases List.mem_cons.mp ha with rfl | ha
      · -- one step to the next candidate, and on from there
        obtain ⟨new', hnew', hstep⟩ := hsteps r' (.tail _ List.mem_cons_self)
        have hbase : r'.delta.prevCommitment = new := by
          have hsame : some next = some new := hnext.symm.trans hnew
          cases hsame
          exact hrest.1
        exact .head (hbase ▸ hstep) (ih hrest hsteps' hlast' List.mem_cons_self hnew')
      · exact ih hrest hsteps' hlast' ha hnew

namespace LandingInv

/-- A queued candidate leads from its base. -/
theorem steps (hi : LandingInv net cfg w) {r : DeltaRow} (hr : r ∈ w.db.deltas)
    (hc : r.delta.status.isCandidate = true) :
    ∃ new, r.delta.newCommitment = some new ∧ net.Step r.delta.prevCommitment new := by
  obtain ⟨d, hd, hsame⟩ := hi.queue.known hr hc
  obtain ⟨new, hnew, hstep, -⟩ := hi.queue.steps hd
  exact ⟨new, hsame.newCommitment.trans hnew, hsame.prevCommitment ▸ hstep⟩

/-- What is queued builds on the post commitment of every queued candidate. -/
theorem behind (hi : LandingInv net cfg w) {delta : DeltaObject} (hq : Queued w.db w'.db op delta)
    {a : DeltaRow} (ha : a ∈ w.db.candidates) {new : Commitment}
    (hnew : a.delta.newCommitment = some new) : ReflTransGen net.Step new delta.prevCommitment := by
  cases hq with
  | submitted hs =>
    obtain ⟨state, _, hgate⟩ := hs.gate
    obtain ⟨_, hchained, hextends⟩ := gate_eq_none_iff.mp hgate
    cases hlast : w.db.candidates.getLast? with
    | none =>
      rw [List.getLast?_eq_none_iff.mp hlast] at ha
      cases ha
    | some last =>
      have htail : last.delta.newCommitment = some delta.prevCommitment ∧
          last.delta.nonce < delta.nonce := by
        simpa [ExtendsTail, Db.queue, List.getLast?_map, hlast, QueuedCandidate.of] using hextends
      refine Chained.reaches hchained (fun r hr => ?_) hlast htail.1 ha hnew
      obtain ⟨hr, hrc⟩ := Table.mem_select.mp hr
      exact hi.steps hr hrc
  | admitted had =>
    obtain ⟨hmem, hc⟩ := Table.mem_select.mp ha
    rw [Db.hasCandidate_eq_false.mp had.idle a hmem] at hc
    cases hc

theorem follows_of_effect (law : net.Lawful) (hi : LandingInv net cfg w) (h : Effect pid w op w')
    (hfits : op.Fits net cfg) {a b : DeltaRow} {new : Commitment} (ha : a ∈ w'.db.deltas)
    (hb : b ∈ w'.db.deltas) (hac : a.delta.status.isCandidate = true)
    (hbc : b.delta.status.isCandidate = true) (hlt : a.delta.nonce < b.delta.nonce)
    (hnew : a.delta.newCommitment = some new) :
    ReflTransGen net.Step new b.delta.prevCommitment := by
  rcases h.candidate_cases hfits ha hac with ⟨a', ha', hac', _, hsa⟩ | ⟨delta, hq, rfl⟩
  · have hnew' : a'.delta.newCommitment = some new := hsa.newCommitment ▸ hnew
    rcases h.candidate_cases hfits hb hbc with ⟨b', hb', hbc', _, hsb⟩ | ⟨delta, hq, rfl⟩
    · rw [hsa.nonce, hsb.nonce] at hlt
      rw [hsb.prevCommitment]
      exact hi.follows ha' hb' hac' hbc' hlt hnew'
    · exact hi.behind hq (Table.mem_select.mpr ⟨ha', hac'⟩) hnew'
  · -- nothing queued has a nonce above the one that was just queued
    rcases hq.inserts.mem.mp hb with rfl | ⟨hb, _⟩
    · exact absurd hlt (BitVec.lt_irrefl _)
    · have hbehind := (hi.queue.queued_behind law.toCoherent hq (Table.mem_select.mpr ⟨hb, hbc⟩)).1
      simp only at hlt
      bv_omega

/-- A nonce the column does not order is noted when it is queued. -/
theorem narrow_of_effect (hi : LandingInv net cfg w) (h : Effect pid w op w')
    (hwide : w'.ghost.wideNonce = false) {d : DeltaObject} (hd : d ∈ w'.ghost.admitted) :
    d.nonce.toNat < 2^63 := by
  have hold : w.ghost.wideNonce = false := by
    by_contra htrue
    rw [h.climbs.wide (by simpa using htrue)] at hwide
    cases hwide
  cases h with
  | submitted | admitted =>
    rcases List.mem_cons.mp hd with rfl | hd
    · have hnew := (Bool.or_eq_false_iff.mp hwide).2
      exact not_le.mp (of_decide_eq_false hnew)
    · exact hi.narrow hold hd
  | _ => exact hi.narrow hold hd

/-- A state that is written is a state. -/
theorem isState_of_write (hfits : op.Fits net cfg) (hok : LandingOk net w op) {state : StateObject}
    (hwrite : StateWrite w.db w'.db op state) : net.IsState state.stateJson state.commitment := by
  cases hwrite with
  | submitted | replaced => exact hfits
  | promoted => exact hok.1

/-- Every call that is made sure of keeps the invariant. -/
theorem of_effect (law : net.Lawful) (hi : LandingInv net cfg w) (h : Effect pid w op w')
    (hfits : op.Fits net cfg) (hok : LandingOk net w op) : LandingInv net cfg w' where
  chain := h.chain_eq ▸ hi.chain
  queue := QueueInv.of_effect law.toCoherent hfits h (QueueInv.moves law hfits) hi.queue
  follows := hi.follows_of_effect law h hfits
  narrow := hi.narrow_of_effect h
  state := by
    intro s hs
    rcases h.state_cases with ⟨heq, hlog, _⟩ | ⟨state, hwrite, heq, hlog, _⟩
    · obtain ⟨hstate, hmem⟩ := hi.state (heq ▸ hs)
      exact ⟨hstate, hlog ▸ hmem⟩
    · rw [heq] at hs
      cases hs
      exact ⟨show net.IsState state.stateJson state.commitment from
        isState_of_write hfits hok hwrite, hlog ▸ List.mem_cons_self⟩
  unconfigured := by
    intro hs
    rcases h.state_cases with ⟨heq, hlog, _⟩ | ⟨state, _, heq, _⟩
    · exact hlog ▸ hi.unconfigured (heq ▸ hs)
    · rw [heq] at hs
      cases hs
  stored := by
    intro hoff x hx
    rw [h.chain_eq]
    rcases h.state_cases with ⟨_, hlog, heq⟩ | ⟨state, _, _, hlog, heq⟩
    · exact hi.stored (heq ▸ hoff) (hlog ▸ hx)
    · rw [heq] at hoff
      obtain ⟨hold, hnew⟩ := Bool.or_eq_false_iff.mp hoff
      rw [hlog] at hx
      rcases List.mem_cons.mp hx with rfl | hx
      · simpa using hnew
      · exact hi.stored hold hx

theorem of_act (law : net.Lawful) (hi : LandingInv net cfg w) (h : ActEffect net w w') :
    LandingInv net cfg w' := by
  have hstored : w'.ghost.offChainStored = false → ∀ {x}, x ∈ w'.ghost.storedLog →
      x ∈ w'.chain.history := by
    intro hoff x hx
    refine Chain.history_mono h (hi.stored ?_ ?_) <;> cases h <;> assumption
  refine ⟨hi.chain.of_act law.toCoherent h, hi.queue.of_act h, ?_, ?_, ?_, ?_, hstored⟩ <;> cases h
  all_goals first
    | exact hi.follows
    | exact hi.narrow
    | exact hi.state
    | exact hi.unconfigured

theorem of_fresh (h : w.Fresh net) : LandingInv net cfg w where
  chain := .of_fresh h
  queue := .of_fresh h
  follows := fun ha => by
    rw [h.deltas] at ha
    exact absurd ha (Table.not_mem_empty _)
  narrow := fun _ _ hd => by
    rw [h.ghost] at hd
    cases hd
  state := fun hs => by
    refine ⟨(h.state hs).1, ?_⟩
    rw [h.ghost, hs]
    exact List.mem_cons_self
  unconfigured := fun hs => by
    rw [h.ghost, hs]
    rfl
  stored := by
    intro _ x hx
    rw [h.ghost] at hx
    simp only [Option.mem_toList, Option.map_eq_some_iff] at hx
    obtain ⟨s, hs, rfl⟩ := hx
    rw [(h.state hs).2]
    simp [Chain.history]

/-- What was stored is in the history, unless the account went astray. -/
theorem stored_mem (hi : LandingInv net cfg w) {x : Commitment} (hx : x ∈ w.ghost.storedLog) :
    w.Astray ∨ x ∈ w.chain.history := by
  cases hoff : w.ghost.offChainStored with
  | true => exact .inl (.inr hoff)
  | false => exact .inr (hi.stored hoff hx)

end LandingInv

theorem landing_kept (law : net.Lawful) (cfg : Config) :
    (landing net cfg).Kept (machine net) (Op.Fits net cfg) where
  call := fun hfits hok hx hi =>
    ⟨hi.of_effect law (exec_effect hx).2 hfits hok, (exec_effect hx).2.climbs⟩
  act := fun ha hi => ⟨hi.of_act law (act_effect ha), (act_effect ha).climbs⟩

end Kept
end Guardian
