import Guardian.Lib.Beside
import Guardian.Safety.Queue
import Guardian.Safety.StoredDocument

/- The state a submission is chained to. `push_delta` reads the stored state and
   then the queue, replays the queue on the state, and applies its delta to the
   result; the storage gate looks again, at the state and the queue of its own
   moment. Between the two, candidates are promoted from the front of the queue.

   A promotion moves the first candidate from the queue to the state, so state and
   queue are a window on one line: what was read is `done ++ rest`, the state is
   the read one with `done` replayed, and the queue is `rest`. The end of the line
   stays where it was.

   The two reads are no transaction. A queue that was read empty chains from any
   state, so its last candidate may have been promoted after the state was read;
   where the delta's base is that state, the gate then refuses the delta. -/
namespace Guardian

open Interleaving Service CandidateChain

/-! ## The end of the line -/

/-- The commitment behind a queue. -/
def lineEnd (stored : Commitment) (queue : List QueuedCandidate) : Commitment :=
  ((queue.getLast?).bind (·.newCommitment)).getD stored

theorem tailCommitment_eq (candidates : List DeltaObject) (stored : Commitment) :
    tailCommitment candidates stored = lineEnd stored (candidates.map .of) := by
  unfold tailCommitment lineEnd
  rw [List.getLast?_map]
  cases candidates.getLast? <;> rfl

/-- A delta at the tail of the queue is based on the tail's commitment. -/
theorem base_eq_tailCommitment {stored base : Commitment} {chain : List DeltaObject}
    (h : classifyChainPosition stored (chain.map .of) base = .tail) :
    base = tailCommitment chain stored := by
  rw [classifyChainPosition_eq_tail, List.getLast?_map] at h
  unfold tailCommitment
  cases hlast : chain.getLast? with
  | none =>
    rw [hlast] at h
    exact h
  | some last =>
    rw [hlast] at h
    have hnew : last.newCommitment = some base := h
    rw [Option.bind_some, hnew]
    rfl

theorem Chained.last {stored : Commitment} {queue : List QueuedCandidate} {last : QueuedCandidate}
    (h : Chained stored queue) (hlast : queue.getLast? = some last) :
    ∃ new, last.newCommitment = some new := by
  induction queue generalizing stored with
  | nil => cases hlast
  | cons c queue ih =>
    obtain ⟨-, next, hnext, hrest⟩ := h
    cases queue with
    | nil =>
      cases hlast
      exact ⟨next, hnext⟩
    | cons c' queue =>
      rw [List.getLast?_cons_cons] at hlast
      exact ih hrest hlast

/-- The first candidate of a chain does not move its end. -/
theorem Chained.lineEnd_cons {stored next : Commitment} {c : QueuedCandidate}
    {queue : List QueuedCandidate} (hnext : c.newCommitment = some next) (h : Chained next queue) :
    lineEnd stored (c :: queue) = lineEnd next queue := by
  unfold lineEnd
  cases queue with
  | nil =>
    rw [List.getLast?_singleton, Option.bind_some, hnext]
    rfl
  | cons c' queue =>
    rw [List.getLast?_cons_cons]
    cases hlast : (c' :: queue).getLast? with
    | none => cases List.getLast?_eq_none_iff.mp hlast
    | some last =>
      obtain ⟨new, hnew⟩ := h.last hlast
      rw [Option.bind_some, hnew]
      rfl

/-- The gate chains a delta to the end of the line, and to nothing else. -/
theorem Chained.tail_iff {stored base : Commitment} {queue : List QueuedCandidate}
    (h : Chained stored queue) :
    classifyChainPosition stored queue base = .tail ↔ base = lineEnd stored queue := by
  rw [classifyChainPosition_eq_tail]
  unfold lineEnd
  cases hlast : queue.getLast? with
  | none => exact Iff.rfl
  | some last =>
    obtain ⟨new, hnew⟩ := h.last hlast
    show last.newCommitment = some base ↔ _
    rw [Option.bind_some, hnew, Option.getD_some, Option.some_inj, eq_comm]

theorem replay_append {net : Network} {json : StateJson} {stored : Commitment}
    (payloads more : List Payload) :
    replay net json stored (payloads ++ more) =
      (replay net json stored payloads).bind (fun r => replay net r.1 r.2 more) := by
  induction payloads generalizing json stored with
  | nil => rfl
  | cons payload payloads ih =>
    rw [List.cons_append, replay, replay]
    cases net.applyDelta json payload with
    | none => rfl
    | some applied => exact ih

/-! ## Promotions from the front -/

/-- The queue as an admission reads it, without what the passes count. -/
def World.line (w : World) : List (QueuedCandidate × Payload) :=
  w.db.candidates.map (fun r => (.of r.delta, r.delta.deltaPayload))

/-- What the others do between a read and the gate: they promote the first
candidate on the stored state, or leave the state and the queue alone. -/
inductive Drains (net : Network) (w w' : World) : Prop where
  | aside (state : w'.db.state = w.db.state) (line : w'.line = w.line)
  | promoted {head : DeltaRow} {rest : List DeltaRow} {s : StateObject} {applied : AppliedState}
      {p : CandidatePromotion} (queue : w.db.candidates = head :: rest) (state : w.db.state = some s)
      (base : s.commitment = head.delta.prevCommitment)
      (apply : net.applyDelta s.stateJson head.delta.deltaPayload = some applied)
      (promotes : Promotes net head.delta applied .candidate p)
      (made : Db.Promoted p w.db w'.db)

/-- What is relied on: the stored commitment is the document's, every queued
delta leads from its base to another commitment, and no two share a base. -/
structure World.Orderly (net : Network) (w : World) : Prop where
  state : ∀ {s}, w.db.state = some s → net.IsState s.stateJson s.commitment
  leads : ∀ c ∈ w.line, ∃ new, c.1.newCommitment = some new ∧
    net.Leads c.1.prevCommitment c.2 new ∧ c.1.prevCommitment ≠ new
  apart : (w.line.map (·.1.prevCommitment)).Nodup

/-- What was ever queued leads from its base to its post commitment. -/
theorem Reachable.leads {net : Network} {cfg : Config} {G : RunGuard} {w₀ : World}
    (hfresh : w₀.Fresh net) {c : SystemConf} (h : Reachable net cfg G w₀ c) :
    ∀ d ∈ c.world.ghost.admitted, ∃ new, d.newCommitment = some new ∧
      net.Leads d.prevCommitment d.deltaPayload new := by
  refine Reachable.induct (I := fun w => ∀ d ∈ w.ghost.admitted, ∃ new,
    d.newCommitment = some new ∧ net.Leads d.prevCommitment d.deltaPayload new) ?_ ?_ ?_ h
  · intro d hd
    rw [hfresh.ghost] at hd
    cases hd
  · intro pid op w w' hfits heffect hi d hd
    obtain hsame | ⟨delta, hqueued, hadded⟩ := heffect.admitted_cases
    · exact hi d (hsame ▸ hd)
    · rw [hadded] at hd
      obtain rfl | hd := List.mem_cons.mp hd
      · exact (hqueued.queues hfits).2
      · exact hi d hd
  · intro w w' hact hi
    cases hact <;> exact hi

/-- Every world of every run in which the queued deltas move is orderly. -/
theorem Reachable.orderly {net : Network} (law : net.Coherent) {cfg : Config} {w₀ : World}
    (hfresh : w₀.Fresh net) {c : SystemConf} (h : Reachable net cfg movingRuns w₀ c) :
    c.world.Orderly net := by
  have hqueue := QueueInv.of_moving law hfresh h
  refine ⟨h.storesDocument law hfresh, fun x hx => ?_, ?_⟩
  · obtain ⟨r, hr, rfl⟩ := List.mem_map.mp hx
    obtain ⟨hmem, hc⟩ := Table.mem_select.mp hr
    obtain ⟨d, hd, hsame⟩ := hqueue.known hmem hc
    obtain ⟨new, hnew, hleads⟩ := h.leads hfresh d hd
    obtain ⟨new', hnew', -, hne⟩ := hqueue.steps hd
    cases hnew.symm.trans hnew'
    rw [← hsame.prevCommitment] at hleads hne
    rw [← hsame.deltaPayload] at hleads
    exact ⟨new, hsame.newCommitment.trans hnew, hleads, hne⟩
  · -- a smaller nonce has a base of smaller rank
    rw [World.line, List.map_map, List.nodup_iff_pairwise_ne, List.pairwise_map]
    have hsorted : c.world.db.candidates.Pairwise (fun a b => a.column < b.column) :=
      Table.sorted_select c.world.db.deltas (·.delta.status.isCandidate)
    refine hsorted.imp_of_mem fun {a b} ha hb hlt hbase => ?_
    have hbase : a.delta.prevCommitment = b.delta.prevCommitment := hbase
    by_cases heq : a.delta.nonce = b.delta.nonce
    · rw [DeltaRow.column, DeltaRow.column, heq] at hlt
      exact lt_irrefl _ hlt
    · obtain hnonce | hnonce : a.delta.nonce < b.delta.nonce ∨ b.delta.nonce < a.delta.nonce := by
        bv_omega
      · exact absurd (hqueue.rank_lt law ha hb hnonce) (by rw [hbase]; exact lt_irrefl _)
      · exact absurd (hqueue.rank_lt law hb ha hnonce) (by rw [hbase]; exact lt_irrefl _)

section Drained
variable {net : Network} {w w' : World} {s : StateObject}
  {line : List (QueuedCandidate × Payload)}

/-- A promoted candidate is a candidate no more; the others are as before. -/
theorem Db.Promoted.candidates {p : CandidatePromotion} {head : DeltaRow} {rest : List DeltaRow}
    {applied : AppliedState} (h : Db.Promoted p w.db w'.db) (hqueue : w.db.candidates = head :: rest)
    (hp : Promotes net head.delta applied .candidate p) : w'.db.candidates = rest := by
  obtain ⟨t, hdelta⟩ := hp.delta
  obtain ⟨row, hnonce, hmatched, -, hrewrites⟩ | ⟨hsource, -⟩ := h.row
  swap
  · rw [hp.source] at hsource
    cases hsource
  have hhead : head ∈ w.db.candidates := hqueue ▸ List.mem_cons_self
  have hrow : row = head := by
    refine Db.eq_of_nonce hrewrites.mem_row (Table.mem_select.mp hhead).1 ?_
    rw [hnonce, hdelta]
  subst hrow
  have hsorted : (row :: rest).Pairwise (fun a b => a.column < b.column) :=
    hqueue ▸ Table.sorted_select w.db.deltas (·.delta.status.isCandidate)
  obtain ⟨hfirst, hrest⟩ := List.pairwise_cons.mp hsorted
  refine Table.eq_of_sorted (Table.sorted_select _ _) hrest fun r => ?_
  have hmem : r ∈ w.db.candidates ↔ r = row ∨ r ∈ rest := by rw [hqueue, List.mem_cons]
  show r ∈ w'.db.deltas.select _ ↔ _
  rw [Table.mem_select, hrewrites.mem]
  constructor
  · rintro ⟨rfl | ⟨hr, hne⟩, hc⟩
    · -- the rewritten row is canonical
      rw [DeltaRow.rewrite, hdelta] at hc
      cases hc
    · exact (hmem.mp (Table.mem_select.mpr ⟨hr, hc⟩)).resolve_left hne
  · intro hr
    obtain ⟨hr', hc⟩ := Table.mem_select.mp (hmem.mpr (.inr hr))
    refine ⟨.inr ⟨hr', ?_⟩, hc⟩
    rintro rfl
    exact lt_irrefl _ (hfirst r hr)

/-- What the others did: nothing to the line, or its first candidate is now part
of the state. -/
theorem Drains.cases (law : net.Coherent) (ho : w.Orderly net) (h : Drains net w w') :
    (w'.db.state = w.db.state ∧ w'.line = w.line) ∨
    ∃ c payload s s' applied, w.line = (c, payload) :: w'.line ∧ w.db.state = some s ∧
      w'.db.state = some s' ∧ s.commitment = c.prevCommitment ∧
      net.applyDelta s.stateJson payload = some applied ∧ s'.stateJson = applied.stateJson ∧
      s'.commitment = applied.commitment ∧ c.newCommitment = some applied.commitment ∧
      law.rank s.commitment < law.rank applied.commitment := by
  cases h with
  | aside hstate hline => exact .inl ⟨hstate, hline⟩
  | @promoted head rest s applied p hqueue hstate hprev happly hp hmade =>
    have hline : w.line = (.of head.delta, head.delta.deltaPayload) :: w'.line := by
      rw [World.line, World.line, hmade.candidates hqueue hp, hqueue, List.map_cons]
    obtain ⟨new, hnew, hleads, hne⟩ := ho.leads _ (hline ▸ List.mem_cons_self)
    have hbase : net.IsState s.stateJson head.delta.prevCommitment := hprev ▸ ho.state hstate
    obtain rfl : applied.commitment = new := hleads.eq law hbase happly
    have hrank : law.rank s.commitment < law.rank applied.commitment :=
      law.rank_lt_of_ne (.of_apply (ho.state hstate) happly) (hprev ▸ hne)
    refine .inr ⟨.of head.delta, head.delta.deltaPayload, s, p.state.asStored, applied, hline, hstate,
      hmade.state, hprev, happly, ?_, ?_, hnew, hrank⟩
    · rw [hp.state]
      rfl
    · rw [hp.state]
      rfl

theorem Drains.orderly (law : net.Coherent) (ho : w.Orderly net) (h : Drains net w w') :
    w'.Orderly net := by
  obtain ⟨hstate, hline⟩ | ⟨c, payload, s, s', applied, hline, -, hs', -, happly, hjson, hcommitment,
    -⟩ := h.cases law ho
  · refine ⟨?_, ?_, ?_⟩
    · rw [hstate]
      exact ho.state
    · rw [hline]
      exact ho.leads
    · rw [hline]
      exact ho.apart
  · refine ⟨?_, fun d hd => ho.leads d (hline ▸ .tail _ hd), ?_⟩
    · intro current hcurrent
      rw [hs'] at hcurrent
      cases hcurrent
      rw [hjson, hcommitment]
      exact law.apply_isState happly
    · have hapart := ho.apart
      rw [hline, List.map_cons, List.nodup_cons] at hapart
      exact hapart.2

/-! ## What was read, and what is left of it -/

variable (net) in
/-- The state and the queue are what is left of a line that was read at `s`. -/
structure Window (s : StateObject) (line : List (QueuedCandidate × Payload)) (w : World) : Prop where
  orderly : w.Orderly net
  left : ∃ done s', line = done ++ w.line ∧ w.db.state = some s' ∧
    replay net s.stateJson s.commitment (done.map (·.2)) = some (s'.stateJson, s'.commitment) ∧
    Chained s'.commitment (w.line.map (·.1)) ∧
    lineEnd s'.commitment (w.line.map (·.1)) = lineEnd s.commitment (line.map (·.1))

/-- A promotion moves the window along the line. -/
theorem Window.drains (law : net.Coherent) (hw : Window net s line w) (h : Drains net w w') :
    Window net s line w' := by
  refine ⟨h.orderly law hw.orderly, ?_⟩
  obtain ⟨done, s₁, hsplit, hs₁, hreplay, hchained, hend⟩ := hw.left
  obtain ⟨hstate, hline⟩ | ⟨c, payload, s₂, s₃, applied, hline, hs₂, hs₃, hprev, happly, hjson,
    hcommitment, hnew, -⟩ := h.cases law hw.orderly
  · refine ⟨done, s₁, ?_, hstate.trans hs₁, hreplay, ?_, ?_⟩
    · rw [hline]
      exact hsplit
    · rw [hline]
      exact hchained
    · rw [hline]
      exact hend
  · rw [hs₁] at hs₂
    cases hs₂
    rw [hline, List.map_cons] at hchained hend
    obtain ⟨-, next, hnext, hrest⟩ := hchained
    have heq : next = applied.commitment := Option.some.inj (hnext.symm.trans hnew)
    subst heq
    refine ⟨done ++ [(c, payload)], s₃, ?_, hs₃, ?_, ?_, ?_⟩
    · rw [hsplit, hline, List.append_assoc]
      rfl
    · rw [List.map_append, replay_append, hreplay]
      show replay net s₁.stateJson s₁.commitment [payload] = _
      rw [replay, happly, hjson, hcommitment]
      rfl
    · rw [hcommitment]
      exact hrest
    · rw [hcommitment, ← hend]
      exact (hrest.lineEnd_cons hnext).symm

/-- Since `s` was read, nothing was promoted, or no queued candidate is based on
it any more. -/
def Since (law : net.Coherent) (s : StateObject) (w : World) : Prop :=
  w.Orderly net ∧ (w.db.state = some s ∨
    (∃ s', w.db.state = some s' ∧ law.rank s.commitment < law.rank s'.commitment) ∧
      ∀ c ∈ w.line, c.1.prevCommitment ≠ s.commitment)

theorem Since.drains {law : net.Coherent} (hw : Since law s w) (h : Drains net w w') :
    Since law s w' := by
  refine ⟨h.orderly law hw.1, ?_⟩
  obtain ⟨hstate, hline⟩ | ⟨c, payload, s₂, s₃, applied, hline, hs₂, hs₃, hprev, -, -,
    hcommitment, -, hrank⟩ := h.cases law hw.1
  · rw [hstate, hline]
    exact hw.2
  rw [← hcommitment] at hrank
  obtain hs | ⟨⟨s', hs', hfurther⟩, hnone⟩ := hw.2
  · rw [hs] at hs₂
    cases hs₂
    refine .inr ⟨⟨s₃, hs₃, hrank⟩, fun d hd hbase => ?_⟩
    -- the promoted candidate was the only one on this base
    have hapart := hw.1.apart
    rw [hline, List.map_cons, List.nodup_cons] at hapart
    exact hapart.1 (hprev ▸ hbase ▸ List.mem_map_of_mem hd)
  · rw [hs'] at hs₂
    cases hs₂
    exact .inr ⟨⟨s₃, hs₃, hfurther.trans hrank⟩, fun d hd => hnone d (hline ▸ .tail _ hd)⟩

/-- The queue was read empty, and the state before it is not the stored one. -/
def Overtaken (law : net.Coherent) (s : StateObject) (w : World) : Prop :=
  w.Orderly net ∧ w.line = [] ∧
    ∃ s', w.db.state = some s' ∧ law.rank s.commitment < law.rank s'.commitment

theorem Overtaken.drains {law : net.Coherent} (hw : Overtaken law s w) (h : Drains net w w') :
    Overtaken law s w' := by
  obtain ⟨ho, hempty, hs⟩ := hw
  obtain ⟨hstate, hline⟩ | ⟨c, payload, _, _, _, hline, -⟩ := h.cases law ho
  · refine ⟨h.orderly law ho, hline.trans hempty, ?_⟩
    rw [hstate]
    exact hs
  · rw [hempty] at hline
    cases hline

end Drained

/-! ## The reads of an admission -/

/-- What an admission goes on with: the stored state, the queue, and the tail with
its document and nonce. -/
abbrev Admission := StateObject × List DeltaObject × Commitment × StateJson × Option Nonce

/-- The queue checks of `push_delta`, and the state behind the queue. -/
def readTail (net : Network) (cfg : Config) (delta : DeltaObject) (currentState : StateObject) :
    Service Admission := do
  let (currentState, chain) ← queueChecks cfg delta currentState
  let tail ← reconstructTail net currentState chain
  return (currentState, chain, tail)

/-- `push_delta` from the read of the state to the state it applies its delta to. -/
def admissionReads (net : Network) (cfg : Config) (delta : DeltaObject) : Service Admission := do
  let currentState ← pullState .storageError
  match ← orFail (query .loadActiveExecution) .storageError with
  | some active => fail (.executionConflict active.reservation.proposalId)
  | none => readTail net cfg delta currentState

/-- The rest of it: the delta is authorized and applied, and submitted. -/
def applyAdmitted (net : Network) (cfg : Config) (delta : DeltaObject) (read : Admission) :
    Service Unit := do
  ensureTailKeepsAuth net read.1 read.2.2.2.1 read.2.2.2.2
  authorizePush net read.2.2.2.1 delta
  match net.verifyAndApplyDelta read.2.2.1 read.2.2.2.1 delta.deltaPayload with
  | none => fail .invalidDelta
  | some applied =>
    if !read.2.1.isEmpty && applied.nonce.any (· != delta.nonce.toNat) then
      fail .conflictPendingDelta
    let now ← now
    pushDelta.commit cfg delta applied.commitment now

/-- A push makes these reads, and applies its delta to what they return. -/
theorem pushDelta_admissionReads (net : Network) (cfg : Config) (delta : DeltaObject) :
    pushDelta net cfg delta = (do
      let metadata ← accountMetadata
      if ← flag then fail .authenticationFailed
      ensureAccountActive metadata
      admissionReads net cfg delta >>= applyAdmitted net cfg delta) := by
  rw [pushDelta_eq]
  unfold admissionReads readTail
  simp only [bind_assoc]
  refine congrArg _ (funext fun metadata => congrArg _ (funext fun flagged => ?_))
  cases flagged with
  | true => rfl
  | false =>
    rw [if_neg Bool.false_ne_true, if_neg Bool.false_ne_true]
    refine congrArg _ (funext fun _ => congrArg _ (funext fun currentState => congrArg _
      (funext fun active => ?_)))
    cases active with
    | some active => rfl
    | none =>
      simp only [bind_assoc, pure_bind]
      rfl

/-- The line of a queue that was read. -/
def lineOf (candidates : List DeltaObject) : List (QueuedCandidate × Payload) :=
  candidates.map (fun d => (.of d, d.deltaPayload))

/-- Nothing is noted of these reads. -/
def noNote : Note Op World Choice Unit := fun _ _ _ _ h => h

section Reads
variable {net : Network} {law : net.Coherent} {pid : Nat} {s : StateObject} {x : World × Unit}
  {ε : Type}

variable (net pid) in
/-- The procedure, run while others promote: what it ends with, and an orderly
world where it fails. -/
abbrev Reading {ε α : Type} (p : Proc ε α) (Q : α → World → Prop) (x : World × Unit) : Prop :=
  (beside Op (Drains net) (fun _ (_ : Unit) => True)).Ensures ((machine net).recorded noNote)
    (freeGuard Op World Choice Act Unit) pid p (fun a y => Q a y.1) (fun y => y.1.Orderly net) x

/-- A fact that promotions keep. -/
def Lasting (net : Network) (K : World → Prop) : Prop := ∀ {w w'}, Drains net w w' → K w → K w'

/-- A read that succeeds: what its rows are worth when it is made lasts. -/
theorem reading_rows (law : net.Coherent) {q : Query} {e : ε} {K : World → Prop}
    {Q : q.Answer → World → Prop} (hK : Lasting net K) (hQ : ∀ {a}, Lasting net (Q a))
    (horderly : ∀ {w}, K w → w.Orderly net) (hread : ∀ {w} rows, K w → Q (q.run w.db rows) w)
    (hx : K x.1) : Reading net pid (orFail (query q) e) Q x := by
  refine Rely.Ensures.bind' (Rely.Ensures.op' fun y hrely _ => ⟨trivial, fun ch r z _ hexec _ => ?_⟩)
  have hy : K y.1 := stable_steps (I := fun w _ => K w) (h := ()) (fun _ _ _ => hK) hrely.1 hx
  obtain ⟨hexec, -⟩ := recorded_exec hexec
  simp only [machine, exec] at hexec
  split at hexec
  · cases hexec
  split at hexec
  · obtain ⟨rfl, hz⟩ := Prod.mk.inj (Option.some.inj hexec)
    have hstep : Drains net y.1 z.1 := by
      rw [← hz]
      exact .aside rfl rfl
    exact Rely.Ensures.pure' (hQ hstep (hread _ hy))
  · obtain ⟨rfl, hz⟩ := Prod.mk.inj (Option.some.inj hexec)
    have hstep : Drains net y.1 z.1 := by
      rw [← hz]
      exact .aside rfl rfl
    exact Rely.Ensures.throw' e (hstep.orderly law (horderly hy))

theorem lasting_orderly (law : net.Coherent) : Lasting net (World.Orderly net) :=
  fun h ho => h.orderly law ho

variable (law) in
/-- A queue as it was read at the state `s`: what is left of it is in the window,
or it was read empty behind a promotion. -/
def ReadAt (s : StateObject) (chain : List DeltaObject) (w : World) : Prop :=
  Window net s (lineOf chain) w ∨ (chain = [] ∧ Overtaken law s w)

theorem lasting_readAt {chain : List DeltaObject} : Lasting net (ReadAt law s chain) := by
  rintro w w' h (hw | ⟨hempty, hw⟩)
  · exact .inl (hw.drains law h)
  · exact .inr ⟨hempty, hw.drains h⟩

theorem ReadAt.orderly {chain : List DeltaObject} {w : World} (h : ReadAt law s chain w) :
    w.Orderly net := by
  obtain h | ⟨-, h⟩ := h
  · exact h.orderly
  · exact h.1

/-- A chain from `s` was read at `s`, or it is empty. -/
theorem Since.readAt {w : World} (hw : Since law s w)
    (hchained : Chained s.commitment (w.line.map (·.1))) {chain : List DeltaObject}
    (hchain : lineOf chain = w.line) : ReadAt law s chain w := by
  obtain ⟨ho, hs | ⟨hfurther, hnone⟩⟩ := hw
  · refine .inl ⟨ho, [], s, hchain, hs, rfl, hchained, ?_⟩
    rw [hchain]
  · cases hline : w.line with
    | nil =>
      rw [hline] at hchain
      exact .inr ⟨List.map_eq_nil_iff.mp hchain, ho, hline, hfurther⟩
    | cons c rest =>
      rw [hline] at hchained
      exact absurd hchained.1 (hnone c (hline ▸ List.mem_cons_self))

theorem lineOf_candidates (w : World) : lineOf (w.db.candidates.map (·.delta)) = w.line := by
  rw [lineOf, World.line, List.map_map]
  rfl

theorem reading_load (hx : Since law s x.1) :
    Reading net pid (load s.commitment) (ReadAt law s) x := by
  have hrows : Reading net pid
      (orFail (query (.pullCandidateDeltas false)) .storageError : Service _)
      (fun rows w => w.Orderly net ∧
        (firstUnchainedCandidate s.commitment (rows.map .of) = none → ReadAt law s rows w)) x := by
    refine reading_rows law (K := Since law s) (fun h hw => hw.drains h) ?_ (fun h => h.1) ?_ hx
    · intro rows w w' h hw
      exact ⟨h.orderly law hw.1, fun hnone => lasting_readAt h (hw.2 hnone)⟩
    · intro w n hw
      refine ⟨hw.1, fun hnone => hw.readAt ?_ (lineOf_candidates w)⟩
      rw [firstUnchainedCandidate_eq_none] at hnone
      rw [World.line, List.map_map]
      rwa [Query.run, List.map_map] at hnone
  unfold load
  refine Rely.Ensures.bind' (hrows.mono fun rows y hy => ?_)
  split
  · exact Rely.Ensures.throw' _ hy.1
  · next hsome =>
    exact Rely.Ensures.pure' (hy.2 (Option.not_isSome_iff_eq_none.mp hsome))

variable (law) in
theorem reading_pullState {e : ε} (hx : x.1.Orderly net) :
    Reading net pid (pullState e)
      (fun s w => net.IsState s.stateJson s.commitment ∧ Since law s w) x := by
  unfold pullState
  refine Rely.Ensures.bind' ((reading_rows law (K := World.Orderly net) (Q := fun r w =>
    w.Orderly net ∧ ∀ s, r = some s → net.IsState s.stateJson s.commitment ∧ Since law s w)
    (lasting_orderly law) ?_ (fun h => h) ?_ hx).mono fun r y hy => ?_)
  · intro r w w' h hw
    refine ⟨h.orderly law hw.1, fun s hs => ?_⟩
    obtain ⟨hstate, hsince⟩ := hw.2 s hs
    exact ⟨hstate, hsince.drains h⟩
  · intro w n ho
    exact ⟨ho, fun s hs => ⟨ho.state hs, ho, .inl hs⟩⟩
  · cases r with
    | some s => exact Rely.Ensures.pure' (hy.2 s rfl)
    | none => exact Rely.Ensures.throw' e hy.1

variable (law) in
/-- The state and the queue an admission goes on with. -/
def Loaded (r : StateObject × List DeltaObject) (w : World) : Prop :=
  net.IsState r.1.stateJson r.1.commitment ∧ ReadAt law r.1 r.2 w

theorem reading_loadForAdmission {base : Commitment}
    (hs : net.IsState s.stateJson s.commitment) (hx : Since law s x.1) :
    Reading net pid (loadForAdmission s base) (Loaded law) x := by
  unfold loadForAdmission
  refine Rely.Ensures.bind' ((Rely.Ensures.absorb' (reading_load hx)).mono fun first y hfirst => ?_)
  have horderly : y.1.Orderly net := by
    cases first with
    | ok chain => exact hfirst.orderly
    | error e => exact hfirst
  dsimp only
  split_ifs
  · -- the stored commitment is read again
    refine Rely.Ensures.bind' ((reading_rows law (K := fun w => w.Orderly net ∧
      ∀ chain, first = .ok chain → ReadAt law s chain w) (Q := fun _ w => w.Orderly net ∧
      ∀ chain, first = .ok chain → ReadAt law s chain w) ?_ ?_ (fun h => h.1) (fun _ h => h)
      ⟨horderly, ?_⟩).mono fun stored z hz => ?_)
    · intro w w' h hw
      exact ⟨h.orderly law hw.1, fun chain hchain => lasting_readAt h (hw.2 chain hchain)⟩
    · intro _ w w' h hw
      exact ⟨h.orderly law hw.1, fun chain hchain => lasting_readAt h (hw.2 chain hchain)⟩
    · rintro chain rfl
      exact hfirst
    · cases stored with
      | none => exact Rely.Ensures.throw' _ hz.1
      | some stored =>
        dsimp only
        split
        · cases first with
          | error e => exact Rely.Ensures.throw' _ hz.1
          | ok chain => exact Rely.Ensures.pure' ⟨hs, hz.2 chain rfl⟩
        · refine Rely.Ensures.bind' ((reading_pullState law hz.1).mono
            fun fresh z₁ hfresh => ?_)
          refine Rely.Ensures.bind' ((reading_load hfresh.2).mono fun chain z₂ hchain => ?_)
          exact Rely.Ensures.pure' ⟨hfresh.1, hchain⟩
  · cases first with
    | error e => exact Rely.Ensures.throw' _ horderly
    | ok chain => exact Rely.Ensures.pure' ⟨hs, hfirst⟩

/-- `reconstruct_tail` makes no call: it returns the replay, which ends at the
tail, or fails. -/
theorem reading_reconstructTail {chain : List DeltaObject} (hx : ReadAt law s chain x.1) :
    Reading net pid (reconstructTail net s chain) (fun tail w => ReadAt law s chain w ∧
      tail.1 = tailCommitment chain s.commitment ∧
      replay net s.stateJson s.commitment (chain.map (·.deltaPayload)) = some (tail.2.1, tail.1)) x := by
  unfold reconstructTail
  split
  · next hnone =>
    rw [List.getLast?_eq_none_iff.mp hnone] at hx ⊢
    exact Rely.Ensures.pure' ⟨hx, rfl, rfl⟩
  · split
    · exact Rely.Ensures.throw' _ hx.orderly
    · next json commitment hreplay =>
      split
      · next heq => exact Rely.Ensures.pure' ⟨hx, heq, hreplay⟩
      · exact Rely.Ensures.throw' _ hx.orderly

/-- Past the queue checks the delta extends the queue that was read. -/
theorem reading_queueChecks (cfg : Config) (delta : DeltaObject)
    (hs : net.IsState s.stateJson s.commitment) (hx : Since law s x.1) :
    Reading net pid (queueChecks cfg delta s) (fun r w => Loaded law r w ∧
      delta.prevCommitment = tailCommitment r.2 r.1.commitment) x := by
  unfold queueChecks
  refine Rely.Ensures.bind' ((reading_loadForAdmission hs hx).mono fun loaded y hloaded => ?_)
  have horderly : y.1.Orderly net := hloaded.2.orderly
  dsimp only
  split
  · exact Rely.Ensures.bind' (Rely.Ensures.throw' _ horderly)
  split
  · exact Rely.Ensures.throw' _ horderly
  · exact Rely.Ensures.throw' _ horderly
  · next hposition =>
    split
    · exact Rely.Ensures.bind' (Rely.Ensures.throw' _ horderly)
    · exact Rely.Ensures.pure' ⟨hloaded, base_eq_tailCommitment hposition⟩

variable (law) in
/-- What the reads end with. -/
def ReadTail (delta : DeltaObject) (r : Admission) (w : World) : Prop :=
  Loaded law (r.1, r.2.1) w ∧ delta.prevCommitment = r.2.2.1 ∧
    r.2.2.1 = tailCommitment r.2.1 r.1.commitment ∧
    replay net r.1.stateJson r.1.commitment (r.2.1.map (·.deltaPayload)) =
      some (r.2.2.2.1, r.2.2.1)

theorem reading_readTail (cfg : Config) (delta : DeltaObject)
    (hs : net.IsState s.stateJson s.commitment) (hx : Since law s x.1) :
    Reading net pid (readTail net cfg delta s) (ReadTail law delta) x := by
  unfold readTail
  refine Rely.Ensures.bind' ((reading_queueChecks cfg delta hs hx).mono fun loaded y hloaded => ?_)
  obtain ⟨hloaded, hbase⟩ := hloaded
  refine Rely.Ensures.bind' ((reading_reconstructTail hloaded.2).mono fun tail z htail => ?_)
  exact Rely.Ensures.pure' ⟨⟨hloaded.1, htail.1⟩, hbase.trans htail.2.1.symm, htail.2⟩

theorem reading_admissionReads (law : net.Coherent) (cfg : Config) (delta : DeltaObject)
    (hx : x.1.Orderly net) : Reading net pid (admissionReads net cfg delta) (ReadTail law delta) x := by
  unfold admissionReads
  refine Rely.Ensures.bind' ((reading_pullState law hx).mono fun s y hs => ?_)
  refine Rely.Ensures.bind' ((reading_rows law (K := Since law s) (Q := fun _ => Since law s)
    (fun h hw => hw.drains h) (fun h hw => hw.drains h) (fun h => h.1) (fun _ h => h) hs.2).mono
    fun active z hz => ?_)
  cases active with
  | some active => exact Rely.Ensures.throw' _ hz.1
  | none => exact reading_readTail cfg delta hs.1 hz

end Reads

/-! ## The gate -/

/-- The gate chains a delta to the commitment `c` and to no other, and `c` is the
state `json` that the queue leads to from the stored one. -/
def World.ChainsTo (net : Network) (w : World) (c : Commitment) (json : StateJson) : Prop :=
  ∃ s, w.db.state = some s ∧ firstUnchainedCandidate s.commitment w.db.queue = none ∧
    (∀ base, classifyChainPosition s.commitment w.db.queue base = .tail ↔ base = c) ∧
    replay net s.stateJson s.commitment (w.db.candidates.map (·.delta.deltaPayload)) = some (json, c)

/-- Nothing is queued, and the gate answers a delta on `c` with the stored
commitment, which is another one. -/
def World.Refuses (w : World) (c : Commitment) : Prop :=
  w.db.candidates = [] ∧ ∃ s, w.db.state = some s ∧ s.commitment ≠ c ∧
    ∀ delta maxPending, delta.prevCommitment = c →
      gateCandidateSubmission s.commitment w.db.queue delta maxPending =
        some (.commitmentMismatch s.commitment)

section Gate
variable {net : Network} {law : net.Coherent} {w : World} {s : StateObject}

theorem line_queue (w : World) : w.line.map (·.1) = w.db.queue := by
  rw [World.line, List.map_map]
  rfl

theorem Window.chainsTo {chain : List DeltaObject} (h : Window net s (lineOf chain) w) {json : StateJson}
    {c : Commitment} (hc : c = tailCommitment chain s.commitment)
    (hreplay : replay net s.stateJson s.commitment (chain.map (·.deltaPayload)) = some (json, c)) :
    w.ChainsTo net c json := by
  obtain ⟨done, s', hsplit, hs', hdone, hchained, hend⟩ := h.left
  have hqueue : (lineOf chain).map (·.1) = chain.map .of := by
    rw [lineOf, List.map_map]
    rfl
  have hc' : c = lineEnd s'.commitment w.db.queue := by
    rw [← line_queue, hend, hqueue, hc, tailCommitment_eq]
  rw [line_queue] at hchained
  refine ⟨s', hs', firstUnchainedCandidate_eq_none.mpr hchained, fun base => ?_, ?_⟩
  · rw [hchained.tail_iff, hc']
  · -- the rest of the line is replayed from where its first part ended
    have hpayloads : chain.map (·.deltaPayload) =
        done.map (·.2) ++ w.db.candidates.map (·.delta.deltaPayload) := by
      have := congrArg (List.map (·.2)) hsplit
      rw [List.map_append, lineOf, World.line, List.map_map, List.map_map] at this
      exact this
    rw [hpayloads, replay_append, hdone] at hreplay
    exact hreplay

theorem Overtaken.refuses (h : Overtaken law s w) : w.Refuses s.commitment := by
  obtain ⟨-, hline, s', hs', hrank⟩ := h
  have hempty : w.db.candidates = [] := List.map_eq_nil_iff.mp hline
  have hne : s'.commitment ≠ s.commitment := fun heq => by
    rw [heq] at hrank
    exact lt_irrefl _ hrank
  refine ⟨hempty, s', hs', hne, fun delta maxPending hbase => ?_⟩
  have hroom : ¬(0 : Nat) ≥ max maxPending 1 := by omega
  have hbase' : delta.prevCommitment ≠ s'.commitment := fun heq => hne (heq.symm.trans hbase)
  simp [gateCandidateSubmission, Db.queue, hempty, firstUnchainedCandidate, classifyChainPosition,
    hbase', hroom]

theorem isState_replay (law : net.Coherent) {json json' : StateJson} {c c' : Commitment}
    {payloads : List Payload} (h : net.IsState json c)
    (hreplay : replay net json c payloads = some (json', c')) : net.IsState json' c' := by
  induction payloads generalizing json c with
  | nil =>
    cases hreplay
    exact h
  | cons payload payloads ih =>
    rw [replay] at hreplay
    split at hreplay
    · cases hreplay
    · next applied happly => exact ih (law.apply_isState happly) hreplay

end Gate

/-- Where no queued delta ends at its own base: what a push reads is the replay of the
queue on the state, it ends at the tail, which is the delta's base, and it stays what
the gate chains a delta to while any number of candidates is promoted from the front;
except where the queue was read empty behind a promotion that the state it goes on
from does not have, and the delta's base is that state: the gate refuses it. -/
theorem reconstructed_tail_is_the_gates {net : Network} (law : net.Coherent) {cfg : Config}
    {w₀ : World} (hfresh : w₀.Fresh net) {c : SystemConf}
    (hc : Reachable net cfg movingRuns w₀ c) {pid : Nat} {delta : DeltaObject} {tail : Commitment} {w : World}
    {st : StateObject} {chain : List DeltaObject} {json : StateJson} {nonce : Option Nonce}
    (hrun : Beside (machine net) noNote (Drains net) pid (admissionReads net cfg delta).run c.world ()
      (.done (.ok (st, chain, tail, json, nonce))) w ()) :
    tail = tailCommitment chain st.commitment ∧ delta.prevCommitment = tail ∧
    replay net st.stateJson st.commitment (chain.map (·.deltaPayload)) = some (json, tail) ∧
    net.IsState json tail ∧
    ((∀ w', Relation.ReflTransGen (Drains net) w w' → w'.ChainsTo net tail json) ∨
      (chain = [] ∧ delta.prevCommitment = st.commitment ∧
        ∀ w', Relation.ReflTransGen (Drains net) w w' → w'.Refuses delta.prevCommitment)) := by
  obtain ⟨w₁, hsteps, ⟨hstate, hread⟩, hbase, htail, hreplay⟩ :=
    hrun.ends (reading_admissionReads law cfg delta (hc.orderly law hfresh))
  have hbase : delta.prevCommitment = tail := hbase
  refine ⟨htail, hbase, hreplay, isState_replay law hstate hreplay, ?_⟩
  have hlasts : ∀ {K : World → Prop}, Lasting net K → K w₁ → ∀ w',
      Relation.ReflTransGen (Drains net) w w' → K w' := by
    intro K hK hw₁ w' hw'
    exact stable_steps (I := fun w _ => K w) (h := ()) (fun _ _ _ => hK) (hsteps.trans hw') hw₁
  obtain hwindow | ⟨hempty, hovertaken⟩ := hread
  · exact .inl fun w' hw' => (hlasts (fun h hw => hw.drains law h) hwindow w' hw').chainsTo htail hreplay
  · have hempty : chain = [] := hempty
    have hbase' : delta.prevCommitment = st.commitment := by
      rw [hbase, show tail = _ from htail, hempty]
      rfl
    refine .inr ⟨hempty, hbase', fun w' hw' => ?_⟩
    rw [hbase']
    exact (hlasts (fun h hw => hw.drains h) hovertaken w' hw').refuses

/-! ## A promotion between the two reads -/

namespace Overtaking

/-- A second push, on the first. -/
def pushedTwice : List (Event Request Choice Act) :=
  Demo.pushed ++ .spawn 1 (.push (Demo.delta 2 "st" "u")) :: Demo.calls 1 9 1

/-- What is left of the reads, and the world it is left in. -/
abbrev Rest := GProg (Except GuardianError Admission) × World × Unit

/-- The first push, applied. -/
def applied : AppliedState := ⟨"st", "st", some 1, [⟨"old", none⟩], some "guardian"⟩

/-- And promoted. -/
def promotion (submitted : DeltaObject) : CandidatePromotion where
  state := ⟨"st", "st", some 1⟩
  delta := { submitted with newCommitment := some "st", status := .canonical 100 }
  newAuth := applied.updatedAuth (.midenFalconRpo ["old"])
  now := 100
  source := .candidate

/-- The world after it. -/
def promoted (w : World) : Option World :=
  (w.db.candidates.head?).bind fun head =>
    (w.db.promoteCandidate true (promotion head.delta)).bind fun x =>
      match x.1 with
      | .applied _ => some { w with db := x.2 }
      | _ => none

/-- The reads of a push of `delta`, one call for each choice. -/
def reads (w : World) (n : Nat) (delta : DeltaObject) : Option Rest :=
  playOwn (machine (.letters 0)) noNote 9 (List.replicate n {})
    (admissionReads (.letters 0) Demo.config delta).run w ()

/-- The state is read, the first candidate is promoted, and `n` calls follow. -/
def overtaken (w : World) (n : Nat) (delta : DeltaObject) : Option Rest :=
  (reads w 2 delta).bind fun x => (promoted x.2.1).bind fun w' =>
    playOwn (machine (.letters 0)) noNote 9 (List.replicate n {}) x.1 w' ()

/-- The account is at `s`, with the first push at the head of its queue. -/
def awaitsFirst (w : World) : Bool :=
  decide (w.db.candidates.head?.map (fun r => (r.delta.prevCommitment, r.delta.deltaPayload)) =
      some ("s", "t") ∧
    w.db.state = some (⟨"s", "s", some 0⟩ : StateObject))

theorem drains_promoted {w w' : World} (h : promoted w = some w') (hw : awaitsFirst w = true) :
    Drains (.letters 0) w w' := by
  obtain ⟨hqueue, hstate⟩ := of_decide_eq_true hw
  obtain ⟨head, hhead, h⟩ := Option.bind_eq_some_iff.mp h
  obtain ⟨⟨a, db⟩, hpromote, h⟩ := Option.bind_eq_some_iff.mp h
  obtain ⟨rest, hcandidates⟩ := List.head?_eq_some_iff.mp hhead
  rw [hhead] at hqueue
  obtain ⟨hbase, hpayload⟩ := Prod.mk.inj (Option.some.inj hqueue)
  obtain ⟨hnot, -⟩ | ⟨settled, rfl, hmade⟩ := Db.promoteCandidate_cases hpromote
  · dsimp only at h
    split at h
    · next settled => exact absurd rfl (hnot settled)
    · cases h
  · cases h
    have happly : (Network.letters 0).applyDelta "s" head.delta.deltaPayload = some applied := by
      rw [hpayload]
      decide +kernel
    exact .promoted hcandidates hstate hbase.symm happly ⟨rfl, ⟨100, rfl⟩, rfl, .midenFalconRpo ["old"], rfl⟩ hmade

theorem beside_overtaken {w : World} {n : Nat} {delta : DeltaObject} {rest : Rest}
    (hw : (reads w 2 delta).any (fun x => awaitsFirst x.2.1) = true)
    (h : overtaken w n delta = some rest) :
    Beside (machine (.letters 0)) noNote (Drains (.letters 0)) 9
      (admissionReads (.letters 0) Demo.config delta).run w () rest.1 rest.2.1 () := by
  obtain ⟨⟨p, w₁, _⟩, hread, h⟩ := Option.bind_eq_some_iff.mp h
  obtain ⟨w₂, hpromoted, hplay⟩ := Option.bind_eq_some_iff.mp h
  rw [hread] at hw
  exact ((Beside.start.own hread).other (drains_promoted hpromoted hw)).own hplay

/-- Whether the admission goes on from the state `stored`, with `payloads` queued
and the tail `tail`. -/
def readsTo (stored : Commitment) (payloads : List Payload) (tail : Commitment) (rest : Rest) : Bool :=
  match rest.1 with
  | .done (.ok r) =>
    r.1.commitment = stored ∧ r.2.1.map (·.deltaPayload) = payloads ∧ r.2.2.1 = tail
  | _ => false

theorem readsTo_iff {stored tail : Commitment} {payloads : List Payload} {rest : Rest}
    (h : readsTo stored payloads tail rest = true) : ∃ st chain json nonce,
      rest.1 = .done (.ok (st, chain, tail, json, nonce)) ∧ st.commitment = stored ∧
        chain.map (·.deltaPayload) = payloads := by
  unfold readsTo at h
  split at h
  · next r hr =>
    obtain ⟨hstored, hpayloads, htail⟩ := of_decide_eq_true h
    refine ⟨r.1, r.2.1, r.2.2.2.1, r.2.2.2.2, ?_, hstored, hpayloads⟩
    rw [hr, ← htail]
  · cases h

end Overtaking

/-- Two candidates are queued, and the first is promoted after the state was read.
The queue does not chain from that state any more, so the state is read again, and
the state behind the second is what the gate chains to. -/
theorem reconstructed_tail_is_the_gates_two_queued :
    ∃ c w st chain json nonce, Reachable (.letters 0) Demo.config movingRuns (Demo.world 0) c ∧
      Beside (machine (.letters 0)) noNote (Drains (.letters 0)) 9
        (admissionReads (.letters 0) Demo.config (Demo.delta 3 "stu" "v")).run c.world ()
        (.done (.ok (st, chain, "stu", json, nonce))) w () ∧
      st.commitment = "st" ∧ chain.map (·.deltaPayload) = ["u"] ∧
      replay (.letters 0) st.stateJson "st" ["u"] = some (json, "stu") ∧
      w.ChainsTo (.letters 0) "stu" json := by
  obtain ⟨c, hc, htest⟩ := Demo.reachable_after 0 movingRuns (Demo.world 0) Overtaking.pushedTwice
    (fun c =>
      (Overtaking.reads c.world 2 (Demo.delta 3 "stu" "v")).any
        (fun x : Overtaking.Rest => Overtaking.awaitsFirst x.2.1) &&
      (Overtaking.overtaken c.world 4 (Demo.delta 3 "stu" "v")).any
        (Overtaking.readsTo "st" ["u"] "stu")) (by decide +kernel)
  obtain ⟨hfirst, hread⟩ := Bool.and_eq_true_iff.mp htest
  obtain ⟨⟨p, w, _⟩, hplay, hread⟩ := (Option.any_eq_true ..).mp hread
  obtain ⟨st, chain, json, nonce, hp, hst, hchain⟩ := Overtaking.readsTo_iff hread
  obtain rfl : p = _ := hp
  have hrun := Overtaking.beside_overtaken hfirst hplay
  obtain ⟨-, -, hreplay, -, hgate⟩ := reconstructed_tail_is_the_gates
    (Network.lettersLawful 0).toCoherent (Demo.fresh_world 0) hc hrun
  rw [hchain, hst] at hreplay
  refine ⟨c, w, st, chain, json, nonce, hc, hrun, hst, hchain, hreplay, ?_⟩
  obtain hgate | ⟨hempty, -⟩ := hgate
  · exact hgate w .refl
  · rw [hempty] at hchain
    cases hchain

/-- The only candidate is promoted after the state was read, and the queue is then
read empty: what is reconstructed is the state the account has left. -/
theorem overtaken_read_is_not_the_gates :
    ¬∀ c, Reachable (.letters 0) Demo.config .any (Demo.world 0) c →
      ∀ w st chain tail json nonce,
        Beside (machine (.letters 0)) noNote (Drains (.letters 0)) 9
          (admissionReads (.letters 0) Demo.config (Demo.delta 2 "s" "x")).run c.world ()
          (.done (.ok (st, chain, tail, json, nonce))) w () →
        w.ChainsTo (.letters 0) tail json := by
  intro hall
  obtain ⟨c, hc, htest⟩ := Demo.reachable_after 0 .any (Demo.world 0) Demo.pushed
    (fun c =>
      (Overtaking.reads c.world 2 (Demo.delta 2 "s" "x")).any
        (fun x : Overtaking.Rest => Overtaking.awaitsFirst x.2.1) &&
      (Overtaking.overtaken c.world 1 (Demo.delta 2 "s" "x")).any (fun x : Overtaking.Rest =>
        Overtaking.readsTo "s" [] "s" x &&
          decide (x.2.1.db.state.map (·.commitment) = some "st" ∧ x.2.1.db.candidates = [])))
    (by decide +kernel)
  obtain ⟨hfirst, hsecond⟩ := Bool.and_eq_true_iff.mp htest
  obtain ⟨⟨p, w, _⟩, hplay, htest⟩ := (Option.any_eq_true ..).mp hsecond
  obtain ⟨hdone, hafter⟩ := Bool.and_eq_true_iff.mp htest
  obtain ⟨hstored, hempty⟩ := of_decide_eq_true hafter
  obtain ⟨st, chain, json, nonce, hp, -⟩ := Overtaking.readsTo_iff hdone
  obtain rfl : p = _ := hp
  have hrun := Overtaking.beside_overtaken hfirst hplay
  obtain ⟨s, hs, -, hgate, -⟩ := hall c hc w st chain "s" json nonce hrun
  have hst : s.commitment = "st" := by
    rw [hs] at hstored
    exact Option.some.inj hstored
  have hqueue : w.db.queue = [] := by rw [Db.queue, hempty]; rfl
  have htail := (hgate "s").mpr rfl
  rw [hst, hqueue] at htail
  exact absurd htail (by decide)

end Guardian
