import Guardian.Safety.Landing
import Guardian.Safety.RecoverablePath

/- Every process keeps the discipline of `Landing`: what a pass promotes has
   landed, and what a `/configure` stores was vouched for. The facts a process
   uses are those its own reads gave it; all of them stay true. -/
namespace Guardian

open Interleaving Service Relation

section Reads
variable {net : Network} {cfg : Config} {pid : Nat} {w : World} {ε : Type}

theorem landingOk_of_quiet {o : Op} (h : o.quiet = true) : LandingOk net w o := by
  cases o with
  | write s => cases s <;> trivial
  | commit tx => cases tx <;> trivial
  | _ => trivial

theorem quietly_landing {o : Op} (h : o.quiet = true) : From (landing net cfg) pid w o :=
  fun _ _ => landingOk_of_quiet h

/-- The statuses and deletions of a pass need nothing. -/
theorem writesFit_landing (delta : DeltaObject) :
    WritesFit cfg (From (landing net cfg) pid w) delta :=
  ⟨fun _ _ _ _ => trivial, fun _ _ _ _ => trivial⟩

/-- A read answers from the database of its moment. -/
theorem ensures_query (q : Query) :
    Ensures (machine net) (landing net cfg) pid (query q : Proc ε _)
      (fun r w' => LandingInv net cfg w' ∧ ∀ rows, r = some rows → ∃ n, rows = q.run w'.db n) w := by
  refine Ensures.op' fun w₁ _ _ => ⟨trivial, fun ch r w₂ hx hi _ => ⟨hi, ?_⟩⟩
  simp only [machine, exec] at hx
  split at hx
  · cases hx
  split at hx
  · cases hx
    rintro rows hrows
    cases hrows
    exact ⟨_, rfl⟩
  · cases hx
    rintro rows hrows
    cases hrows

theorem ensures_rows (q : Query) (e : ε) :
    Ensures (machine net) (landing net cfg) pid (orFail (query q) e)
      (fun rows w' => LandingInv net cfg w' ∧ ∃ n, rows = q.run w'.db n) w :=
  ensures_orFail ((ensures_query q).mono fun _ _ _ hr rows hrows => ⟨hr.1, hr.2 rows hrows⟩)

/-- The state row is a state that was stored. -/
theorem ensures_pullState (e : ε) :
    Ensures (machine net) (landing net cfg) pid (pullState e)
      (fun s w' => net.IsState s.stateJson s.commitment ∧ s.commitment ∈ w'.ghost.storedLog ∧
        LandingInv net cfg w') w := by
  refine Ensures.bind' ((ensures_rows .pullState e).mono fun rows w' _ hrows => ?_)
  obtain ⟨hi, _, rfl⟩ := hrows
  dsimp only [Query.run]
  split
  · next s hs => exact Ensures.pure' ⟨(hi.state hs).1, (hi.state hs).2, hi⟩
  · exact Ensures.throw' e

/-- A node answers from the chain of its moment. -/
theorem ensures_node (n : NodeCall) :
    Ensures (machine net) (landing net cfg) pid (node n : Proc ε _)
      (fun r w' => LandingInv net cfg w' ∧ ∀ a, r = some a → ∃ ch, n.possible w'.chain ch = true ∧
        a = n.run w'.chain ch ∧ (n.vouchesStale w'.chain ch = true → w'.ghost.staleVouch = true)) w := by
  refine Ensures.op' fun w₁ _ _ => ⟨trivial, fun ch r w₂ hx hi _ => ⟨hi, ?_⟩⟩
  intro a ha
  subst ha
  obtain ⟨_, hpossible, rfl, rfl⟩ := exec_node_answer hx
  exact ⟨ch, hpossible, rfl, fun hstale => Bool.or_eq_true_iff.mpr (.inr hstale)⟩

/-- What a verification says of the commitments the account has had. -/
def World.Verified (net : Network) (w : World) (expected : Commitment) (mode : RpcReadMode) :
    StateVerification → Prop
  | .match => expected ∈ w.chain.history ∧ (mode = .configured → w.ghost.staleVouch = true ∨
      ∀ x ∈ w.chain.history, ReflTransGen net.Step x expected)
  | .absent => True
  | .mismatch onChain => onChain ∈ w.chain.history

theorem ensures_verify (law : net.Lawful) (one : net.OneLineage) (expected : Commitment)
    (mode : RpcReadMode) :
    Ensures (machine net) (landing net cfg) pid (node (.verifyCommitment expected mode) : Proc ε _)
      (fun r w' => LandingInv net cfg w' ∧ ∀ v, r = some v → w'.Verified net expected mode v) w := by
  refine (ensures_node _).mono fun r w' _ hr => ⟨hr.1, fun v hv => ?_⟩
  obtain ⟨hi, hr⟩ := hr
  obtain ⟨ch, hpossible, hrun, hstale⟩ := hr v hv
  cases v with
  | absent => trivial
  | mismatch onChain => exact Chain.headAt_mem (Chain.verifyCommitment_mismatch hrun.symm)
  | «match» =>
    have hat := Chain.verifyCommitment_match hrun.symm
    refine ⟨Chain.headAt_mem hat, fun hmode => ?_⟩
    subst hmode
    by_cases hb : ch.block < w'.chain.tip
    · exact .inl (hstale (decide_eq_true hb))
    · -- served at the tip, it is the account's current commitment
      refine .inr fun x hx => ?_
      rw [hi.chain.headAt_tip (not_lt.mp hb) hat]
      exact hi.chain.reaches_head law one hx

end Reads

/-! ## Promotions -/

/-- The promotion of `delta` to the applied state is made sure of. -/
structure Lands (net : Network) (w : World) (delta : DeltaObject) (applied : AppliedState) :
    Prop where
  state : net.IsState applied.stateJson applied.commitment
  step : net.Step delta.prevCommitment applied.commitment
  onChain : w.Astray ∨ applied.commitment ∈ w.chain.history

namespace Processor
variable {net : Network} {cfg : Config} {pid : Nat} {w : World} {fence : LeaseFence}
  {delta : DeltaObject} {applied : AppliedState}

theorem makes_promotion (h : Lands net w delta applied) (source : PromotableKind) :
    Makes (From (landing net cfg) pid w)
      (canonicalizeVerifiedDelta net cfg fence delta applied source) := by
  refine makes_canonicalizeVerifiedDelta quietly_landing fun {p} hp w' hle => ?_
  obtain ⟨_, hdelta⟩ := hp.delta
  simp only [landing, LandingOk, hp.state, hdelta]
  refine ⟨h.state, h.step, ?_⟩
  rcases h.onChain with hastray | hmem
  · exact .inl (hle.astray hastray)
  · exact .inr (hle.history hmem)

/-- What is known of a candidate and the ones behind it in a snapshot: it leads
from its base, and they descend from it. -/
structure Precedes (net : Network) (w : World) (delta : DeltaObject) (successors : List Commitment) :
    Prop where
  step : ∃ new, delta.newCommitment = some new ∧ net.Step delta.prevCommitment new
  successors : w.Astray ∨ ∀ c ∈ successors, ∀ new, delta.newCommitment = some new →
    ReflTransGen net.Step new c

theorem Precedes.climb {w' : World} {successors : List Commitment}
    (h : Precedes net w delta successors) (hle : w.Climbs w') : Precedes net w' delta successors :=
  ⟨h.step, h.successors.imp hle.astray id⟩

/-- A candidate behind which the chain's commitment is queued has landed: it
lies between the stored commitment and the chain's. -/
theorem Precedes.landed {successors : List Commitment} (h : Precedes net w delta successors)
    (law : net.Lawful) (one : net.OneLineage) (hi : LandingInv net cfg w) {s : StateObject}
    {onChain new : Commitment} (hs : s.commitment ∈ w.ghost.storedLog)
    (hstep : net.Step s.commitment new) (hnew : delta.newCommitment = some new)
    (hmem : onChain ∈ successors) (hchain : onChain ∈ w.chain.history) :
    w.Astray ∨ new ∈ w.chain.history := by
  rcases h.successors with hastray | hsucc
  · exact .inl hastray
  · rcases hi.stored_mem hs with hastray | hstored
    · exact .inl hastray
    · exact .inr (hi.chain.between law one hstored hchain (.single hstep) (hsucc _ hmem _ hnew))

/-- What is found on chain has landed. -/
theorem ensures_executedCandidateLanded (law : net.Lawful) {recomputed : Commitment}
    (hstate : ∃ s, net.IsState s recomputed) :
    Ensures (machine net) (landing net cfg) pid (executedCandidateLanded delta recomputed)
      (fun landed w' => landed = true → recomputed ∈ w'.chain.history) w := by
  unfold executedCandidateLanded
  refine ensures_seq (makes_query quietly_landing _) fun r w₁ _ => ?_
  split
  · split
    · exact Ensures.pure' (by simp)
    · split
      · exact Ensures.pure' (by simp)
      refine Ensures.bind' ((ensures_node _).mono fun r w₂ _ hr => ?_)
      split
      · next search =>
        refine Ensures.pure' fun hfound => ?_
        obtain ⟨ch, _, hrun, _⟩ := hr.2 search rfl
        rw [hrun] at hfound
        obtain ⟨c, hc, heq⟩ := Chain.findTransactionEndingAt_mem hfound
        obtain ⟨s, hs⟩ := hr.1.chain.states hc
        obtain ⟨s', hs'⟩ := hstate
        rw [← law.eq_of_ignoreCase hs hs' heq]
        exact hc
      · exact Ensures.pure' (by simp)
  · exact Ensures.pure' (by simp)

/-- A promotion that was interrupted finishes at the stored state. -/
theorem ensures_finishInterruptedPromotion (law : net.Lawful) (one : net.OneLineage)
    {s : StateObject} (hs : net.IsState s.stateJson s.commitment)
    (hstep : ∃ new, delta.newCommitment = some new ∧ net.Step delta.prevCommitment new) :
    Ensures (machine net) (landing net cfg) pid (finishInterruptedPromotion net cfg fence delta s)
      (fun _ _ => True) w := by
  unfold finishInterruptedPromotion
  split
  · exact Ensures.pure' trivial
  next hnew =>
  refine Ensures.bind' ((ensures_verify law one _ _).mono fun r w₁ _ hr => ?_)
  split
  · next v =>
    split
    · exact Ensures.throw' _
    · next binding hbinding =>
      obtain ⟨new, hnew', hstep⟩ := hstep
      rw [not_not.mp hnew] at hnew'
      cases hnew'
      have hlands : Lands net w₁ delta ⟨s.stateJson, s.commitment, s.nonce, binding.signers,
          binding.guardian⟩ := ⟨hs, hstep, .inr (hr.2 _ rfl).1⟩
      exact ensures_seq (makes_promotion hlands _) fun _ _ _ => Ensures.pure' trivial
  · exact Ensures.pure' trivial

/-- What a full pass does with the chain's answer. -/
theorem ensures_settleFullCandidate (law : net.Lawful) (one : net.OneLineage)
    (hi : LandingInv net cfg w) {successors : List Commitment}
    (hprecedes : Precedes net w delta successors) {s : StateObject}
    (hs : net.IsState s.stateJson s.commitment) (hlog : s.commitment ∈ w.ghost.storedLog)
    (hprev : s.commitment = delta.prevCommitment)
    (happlied : net.applyDelta s.stateJson delta.deltaPayload = some applied)
    {verified : Option StateVerification} {mode : RpcReadMode}
    (hv : ∀ v, verified = some v → w.Verified net applied.commitment mode v) :
    Ensures (machine net) (landing net cfg) pid
      (settleFullCandidate net cfg fence delta applied successors verified) (fun _ _ => True) w := by
  have hstep : net.Step s.commitment applied.commitment := .of_apply hs happlied
  have hlands : ∀ {w'}, w'.Astray ∨ applied.commitment ∈ w'.chain.history →
      Lands net w' delta applied := fun h => ⟨law.apply_isState happlied, hprev ▸ hstep, h⟩
  have hwrites : WritesFit cfg (From (landing net cfg) pid w) delta := writesFit_landing delta
  unfold settleFullCandidate
  split
  · exact ensures_of_makes (makes_promotion (hlands (.inr (hv _ rfl).1)) _)
  · exact ensures_of_makes (makes_handleNotLanded quietly_landing hwrites)
  · next onChain =>
    split
    · next hthrough =>
      simp only [landedThroughSuccessor, Bool.and_eq_true, beq_iff_eq, List.contains_iff_mem] at hthrough
      have hin := hprecedes.landed law one hi hlog hstep hthrough.1 hthrough.2 (hv _ rfl)
      exact ensures_of_makes (makes_promotion (hlands hin) _)
    · split
      · refine Ensures.bind' ((ensures_executedCandidateLanded law
          ⟨_, law.apply_isState happlied⟩).mono fun landed w₁ _ hl => ?_)
        split
        · next htrue => exact ensures_of_makes (makes_promotion (hlands (.inr (hl htrue))) _)
        · exact ensures_of_makes (makes_handleDivergedCandidate quietly_landing (writesFit_landing _))
      · exact ensures_of_makes (makes_handleNotLanded quietly_landing hwrites)
  · exact ensures_of_makes (makes_handleUnverifiedCandidate quietly_landing hwrites)

theorem ensures_processFullCandidate (law : net.Lawful) (one : net.OneLineage)
    {successors : List Commitment} (hprecedes : Precedes net w delta successors) :
    Ensures (machine net) (landing net cfg) pid
      (processFullCandidate net cfg fence delta successors) (fun _ _ => True) w := by
  unfold processFullCandidate
  refine Ensures.bind' ((ensures_pullState _).mono fun s w₁ hle₁ hs => ?_)
  split
  · refine Ensures.bind' ((ensures_finishInterruptedPromotion law one hs.1 hprecedes.step).mono
      fun step w₂ _ _ => ?_)
    split
    · exact Ensures.pure' trivial
    · exact ensures_seq (makes_handleOrphanedCandidate quietly_landing (writesFit_landing _))
        fun _ _ _ => Ensures.pure' trivial
  next hprev =>
  split
  · exact Ensures.throw' _
  next applied happlied =>
  refine Ensures.bind' ((ensures_verify law one _ _).mono fun v w₂ hle₂ hv => ?_)
  have hprecedes₂ := (hprecedes.climb hle₁).climb hle₂
  exact Ensures.bind' ((ensures_settleFullCandidate law one hv.1 hprecedes₂ hs.1 (hle₂.log hs.2.1)
    (not_not.mp hprev) happlied hv.2).mono fun _ _ _ _ => Ensures.pure' trivial)

/-- What the fast pass promotes, a node has reported, or something behind it. -/
theorem ensures_promote (law : net.Lawful) (one : net.OneLineage) {successors : List Commitment}
    (hprecedes : Precedes net w delta successors) {claimed : Commitment}
    (hclaimed : delta.newCommitment = some claimed)
    (hread : claimed ∈ w.chain.history ∨ ∃ c ∈ successors, c ∈ w.chain.history) :
    Ensures (machine net) (landing net cfg) pid
      (processRecentCandidate.promote net cfg fence delta claimed) (fun _ _ => True) w := by
  unfold processRecentCandidate.promote
  refine Ensures.bind' ((ensures_pullState _).mono fun s w₁ hle hs => ?_)
  split
  · exact Ensures.pure' trivial
  next hprev =>
  split
  · exact Ensures.throw' _
  next applied happlied =>
  split
  · exact Ensures.pure' trivial
  next hsame =>
  obtain ⟨hstate, hlog, hi⟩ := hs
  have heq : applied.commitment = claimed := not_not.mp hsame
  have hstep : net.Step s.commitment applied.commitment := .of_apply hstate happlied
  have hin : w₁.Astray ∨ applied.commitment ∈ w₁.chain.history := by
    rcases hread with hmem | ⟨c, hc, hmem⟩
    · exact .inr (heq ▸ hle.history hmem)
    · exact (hprecedes.climb hle).landed law one hi hlog hstep (heq ▸ hclaimed) hc
        (hle.history hmem)
  have hlands : Lands net w₁ delta applied :=
    ⟨law.apply_isState happlied, not_not.mp hprev ▸ hstep, hin⟩
  exact ensures_seq (makes_promotion hlands _) fun _ _ _ => Ensures.pure' trivial

theorem ensures_processRecentCandidate (law : net.Lawful) (one : net.OneLineage)
    {successors : List Commitment} (hprecedes : Precedes net w delta successors) :
    Ensures (machine net) (landing net cfg) pid
      (processRecentCandidate net cfg fence delta successors) (fun _ _ => True) w := by
  unfold processRecentCandidate
  split
  · exact Ensures.pure' trivial
  next claimed hclaimed =>
  refine Ensures.bind' ((ensures_orFail ((ensures_verify law one claimed .singleAttempt).mono
    fun r w₁ _ hr => hr.2)).mono fun v w₁ hle hv => ?_)
  split
  · exact Ensures.pure' trivial
  · next onChain =>
    split
    · next hmem => exact ensures_promote law one (hprecedes.climb hle) hclaimed (.inr ⟨_, hmem, hv⟩)
    · exact Ensures.pure' trivial
  · exact ensures_promote law one (hprecedes.climb hle) hclaimed (.inl hv.1)

theorem ensures_processCandidate (law : net.Lawful) (one : net.OneLineage) (mode : ProcessingMode)
    {successors : List Commitment} (hprecedes : Precedes net w delta successors) :
    Ensures (machine net) (landing net cfg) pid
      (processCandidate net cfg fence mode delta successors) (fun _ _ => True) w := by
  unfold processCandidate
  split
  · exact ensures_processFullCandidate law one hprecedes
  · exact ensures_processRecentCandidate law one hprecedes

/-! ## The queue -/

/-- A snapshot of the queue: every candidate leads from its base, and what comes
later in the list descends from what comes earlier. -/
structure Snapshot (net : Network) (w : World) (rows : List DeltaObject) : Prop where
  steps : ∀ d ∈ rows, ∃ new, d.newCommitment = some new ∧ net.Step d.prevCommitment new
  ordered : w.Astray ∨ rows.Pairwise (fun a b => ∀ na nb, a.newCommitment = some na →
    b.newCommitment = some nb → ReflTransGen net.Step na nb)

namespace Snapshot
variable {rows rows' : List DeltaObject}

theorem climb {w' : World} (h : Snapshot net w rows) (hle : w.Climbs w') : Snapshot net w' rows :=
  ⟨h.steps, h.ordered.imp hle.astray id⟩

theorem sublist (h : Snapshot net w rows) (hsub : rows'.Sublist rows) : Snapshot net w rows' :=
  ⟨fun d hd => h.steps d (hsub.subset hd), h.ordered.imp id (·.sublist hsub)⟩

theorem precedes (h : Snapshot net w (delta :: rows)) :
    Precedes net w delta (rows.filterMap (·.newCommitment)) := by
  refine ⟨h.steps delta List.mem_cons_self, h.ordered.imp id fun hpair c hc new hnew => ?_⟩
  obtain ⟨d, hd, hdc⟩ := List.mem_filterMap.mp hc
  exact (List.pairwise_cons.mp hpair).1 d hd new c hnew hdc

end Snapshot

theorem ensures_processQueue (law : net.Lawful) (one : net.OneLineage) (mode : ProcessingMode)
    (isHead chainBroken : Bool) (predecessor : Option (Nonce × Option Commitment))
    (firstError : Option GuardianError) {rows : List DeltaObject} (h : Snapshot net w rows) :
    Ensures (machine net) (landing net cfg) pid
      (processQueue net cfg fence mode isHead chainBroken predecessor firstError rows)
      (fun _ _ => True) w := by
  induction rows generalizing isHead chainBroken predecessor firstError w with
  | nil => exact Ensures.pure' trivial
  | cons delta rest ih =>
    have hrest : ∀ {w'}, w.Climbs w' → Snapshot net w' rest := fun hle =>
      (h.sublist (List.sublist_cons_self delta rest)).climb hle
    unfold processQueue
    refine ensures_seq (makes_flag quietly_landing) fun late w₁ hle₁ => ?_
    split
    · exact Ensures.pure' trivial
    refine ensures_seq (makes_storedBase quietly_landing _) fun stored w₂ hle₂ => ?_
    split
    · exact Ensures.pure' trivial
    have hle := (landing net cfg).le_trans hle₁ hle₂
    dsimp only
    split
    · refine Ensures.absorb_seq (ensures_processCandidate law one mode (h.climb hle).precedes)
        fun r w₃ hle₃ => ?_
      have hrest₃ := hrest ((landing net cfg).le_trans hle hle₃)
      split
      · exact ih _ _ _ _ hrest₃
      · exact ih _ _ _ _ hrest₃
      · exact ih _ _ _ _ hrest₃
    · refine ensures_seq (makes_awaitsPredecessor quietly_landing _ _ _) fun waits w₃ hle₃ => ?_
      split
      · exact Ensures.pure' trivial
      split
      · exact Ensures.pure' trivial
      · have hle₃ := (landing net cfg).le_trans hle hle₃
        refine ensures_seq (makes_absorb (makes_handleOrphanedCandidate quietly_landing
          (writesFit_landing delta))) fun r w₄ hle₄ => ?_
        have hrest₄ := hrest ((landing net cfg).le_trans hle₃ hle₄)
        split
        · exact ih _ _ _ _ hrest₄
        · exact ih _ _ _ _ hrest₄

theorem ensures_processCandidateList (law : net.Lawful) (one : net.OneLineage)
    (mode : ProcessingMode) {rows : List DeltaObject} (h : Snapshot net w rows) :
    Ensures (machine net) (landing net cfg) pid (processCandidateList net cfg fence mode rows)
      (fun _ _ => True) w := by
  unfold processCandidateList
  refine ensures_seq (makes_now quietly_landing) fun now w₁ hle => ?_
  refine Ensures.bind' ((ensures_processQueue law one mode _ _ _ _ ?_).mono fun error w₂ _ _ => ?_)
  · split
    · exact h.climb hle
    · exact (h.climb hle).sublist List.filter_sublist
  · split
    · exact Ensures.throw' _
    · exact Ensures.pure' trivial

/-! ## The passes over the queue -/

/-- What is known of candidates read together, in whatever order. -/
structure Related (net : Network) (rows : List DeltaObject) : Prop where
  steps : ∀ d ∈ rows, ∃ new, d.newCommitment = some new ∧ net.Step d.prevCommitment new
  ordered : ∀ a ∈ rows, ∀ b ∈ rows, a.nonce ≤ b.nonce → ∀ na nb, a.newCommitment = some na →
    b.newCommitment = some nb → ReflTransGen net.Step na nb

theorem Related.subset {rows rows' : List DeltaObject} (h : Related net rows)
    (hsub : ∀ d ∈ rows', d ∈ rows) : Related net rows' :=
  ⟨fun d hd => h.steps d (hsub d hd), fun a ha b hb => h.ordered a (hsub a ha) b (hsub b hb)⟩

/-- In the order of their nonces, candidates make a snapshot. -/
theorem Related.snapshot {rows : List DeltaObject} (h : Related net rows)
    (hsorted : rows.Pairwise (fun a b => a.nonce ≤ b.nonce)) : Snapshot net w rows :=
  ⟨h.steps, .inr (hsorted.imp_of_mem fun ha hb hle => h.ordered _ ha _ hb hle)⟩

/-- Candidates of the table are related: of two, the one with the larger nonce
descends from the other. -/
theorem related_of_inv (hi : LandingInv net cfg w) {rows : List DeltaObject}
    (hrows : ∀ d ∈ rows, ∃ r ∈ w.db.candidates, r.delta = d) : Related net rows := by
  refine ⟨fun d hd => ?_, fun a ha b hb hle na nb hna hnb => ?_⟩
  · obtain ⟨r, hr, rfl⟩ := hrows d hd
    obtain ⟨hr, hrc⟩ := Table.mem_select.mp hr
    exact hi.steps hr hrc
  · obtain ⟨ra, hra, rfl⟩ := hrows a ha
    obtain ⟨rb, hrb, rfl⟩ := hrows b hb
    obtain ⟨hra, hrac⟩ := Table.mem_select.mp hra
    obtain ⟨hrb, hrbc⟩ := Table.mem_select.mp hrb
    by_cases heq : ra.delta.nonce = rb.delta.nonce
    · rw [Db.eq_of_nonce hra hrb heq, hnb] at hna
      cases hna
      exact .refl
    · have hlt : ra.delta.nonce < rb.delta.nonce := by bv_omega
      obtain ⟨new, hnew, hstep⟩ := hi.steps hrb hrbc
      rw [hnb] at hnew
      cases hnew
      exact (hi.follows hra hrb hrac hrbc hlt hna).tail hstep

/-- The queue as the full pass reads it: in the order of the column, which is
the order of the nonces unless one of them is too large. -/
theorem snapshot_of_inv (hi : LandingInv net cfg w) :
    Snapshot net w (w.db.candidates.map (·.delta)) := by
  have hrel : Related net (w.db.candidates.map (·.delta)) := related_of_inv hi fun d hd =>
    List.mem_map.mp hd
  cases hwide : w.ghost.wideNonce with
  | true => exact ⟨hrel.steps, .inl (.inl hwide)⟩
  | false =>
    have hnarrow : ∀ r ∈ w.db.candidates, r.delta.nonce.toNat < 2^63 := by
      intro r hr
      obtain ⟨hr, hrc⟩ := Table.mem_select.mp hr
      obtain ⟨d, hd, hsame⟩ := hi.queue.known hr hrc
      rw [hsame.nonce]
      exact hi.narrow hwide hd
    refine hrel.snapshot (List.pairwise_map.mpr ?_)
    refine (Table.sorted_select _ _).imp_of_mem fun {a b} ha hb hlt => ?_
    exact BitVec.le_of_lt ((nonceColumn_lt_iff (hnarrow a ha) (hnarrow b hb)).mp hlt)

theorem ensures_processFullPass (law : net.Lawful) (one : net.OneLineage) :
    Ensures (machine net) (landing net cfg) pid (processFullPass net cfg fence) (fun _ _ => True) w := by
  have haccount : ∀ {w₁}, Ensures (machine net) (landing net cfg) pid
      (processAccount net cfg fence) (fun _ _ => True) w₁ := by
    intro w₁
    unfold processAccount
    refine ensures_seq (makes_accountMetadata quietly_landing) fun metadata w₂ _ => ?_
    refine Ensures.bind' ((ensures_rows (.pullCandidateDeltas true) _).mono fun rows w₃ _ hrows => ?_)
    obtain ⟨hi, n, rfl⟩ := hrows
    split
    · refine ensures_of_makes ?_
      split
      · exact (makes_write (quietly_landing rfl)).bind' fun _ => trivial
      · trivial
    · exact ensures_processCandidateList law one _ (snapshot_of_inv hi)
  unfold processFullPass
  refine ensures_seq (makes_orFail (makes_query quietly_landing _)) fun listed w₁ _ => ?_
  split
  swap
  · exact Ensures.pure' trivial
  refine ensures_seq (makes_flag quietly_landing) fun late w₂ _ => ?_
  split
  · exact Ensures.pure' trivial
  · exact Ensures.absorb_seq haccount fun _ _ _ => Ensures.pure' trivial

theorem ensures_processRecentPage (law : net.Lawful) (one : net.OneLineage) (maxAge : Nat)
    {page : List DeltaObject} (h : Related net page) :
    Ensures (machine net) (landing net cfg) pid (processRecentPage net cfg fence maxAge page)
      (fun _ _ => True) w := by
  unfold processRecentPage
  refine ensures_seq (makes_now quietly_landing) fun now w₁ _ => ?_
  dsimp only
  split
  · exact Ensures.pure' trivial
  refine ensures_seq (makes_flag quietly_landing) fun late w₂ _ => ?_
  split
  · exact Ensures.pure' trivial
  refine Ensures.absorb_seq ?_ fun _ _ _ => Ensures.pure' trivial
  refine ensures_seq (makes_accountMetadata quietly_landing) fun _ w₃ _ => ?_
  refine ensures_processCandidateList law one _ (Related.snapshot (h.subset fun d hd => ?_) ?_)
  · exact List.mem_of_mem_filter ((List.mem_insertionSort _).mp hd)
  · have htotal : Std.Total (fun a b : DeltaObject => a.nonce.toNat ≤ b.nonce.toNat) :=
      ⟨fun a b => Nat.le_total _ _⟩
    have htrans : IsTrans DeltaObject (fun a b => a.nonce.toNat ≤ b.nonce.toNat) :=
      ⟨fun a b c => Nat.le_trans⟩
    exact List.pairwise_insertionSort _ _

theorem ensures_processRecentPages (law : net.Lawful) (one : net.OneLineage) (maxAge : Nat)
    (cutoff : Time) (pages : List (Option RecentCandidateCursor))
    (cursor : Option RecentCandidateCursor) :
    Ensures (machine net) (landing net cfg) pid
      (processRecentPages net cfg fence maxAge cutoff pages cursor) (fun _ _ => True) w := by
  induction pages generalizing cursor w with
  | nil => exact Ensures.pure' trivial
  | cons next pages ih =>
    unfold processRecentPages
    refine ensures_seq (makes_flag quietly_landing) fun late w₁ _ => ?_
    split
    · exact Ensures.pure' trivial
    refine Ensures.bind' ((ensures_rows (.pullRecentCandidateDeltas cutoff cursor) _).mono
      fun rows w₂ _ hrows => ?_)
    obtain ⟨hi, n, rfl⟩ := hrows
    have hrel : Related net (Query.run w₂.db n (.pullRecentCandidateDeltas cutoff cursor)) := by
      refine related_of_inv hi fun d hd => ?_
      have hd := (List.mem_insertionSort _).mp (List.mem_of_mem_take hd)
      exact List.mem_map.mp (List.mem_of_mem_filter hd)
    split
    · exact Ensures.pure' trivial
    refine ensures_seq (makes_flag quietly_landing) fun late w₃ _ => ?_
    split
    · exact Ensures.pure' trivial
    exact Ensures.bind' ((ensures_processRecentPage law one _ hrel).mono fun _ _ _ _ => ih _)

end Processor

/-! ## The reconcile pass -/

namespace Recoverable

/-- A selected path chains from the stored commitment. -/
theorem selectRecoverablePath_chained (stored onChain : Commitment) (live : List Recoverable) :
    Chained stored ((selectRecoverablePath stored onChain live).map (fun r => .of r.delta)) := by
  by_cases hempty : selectRecoverablePath stored onChain live = []
  · rw [hempty]
    trivial
  · exact (selectRecoverablePath_recovers hempty).chained

end Recoverable

namespace Processor
variable {net : Network} {cfg : Config} {pid : Nat} {w : World} {fence : LeaseFence}

/-- What is known of one hop of a path from `c`. -/
structure Hop (net : Network) (c : Commitment) (hop : Recoverable × AppliedState) : Prop where
  state : net.IsState hop.2.stateJson hop.2.commitment
  step : net.Step hop.1.delta.prevCommitment hop.2.commitment
  reached : ReflTransGen net.Step c hop.2.commitment

/-- The hops of a path that chains go step by step, each on the way to the
last. -/
theorem reconstructPath_hops (law : net.Lawful) {base : StateJson} {c : Commitment}
    {path : List Recoverable} {hops : List (Recoverable × AppliedState)}
    (hbase : net.IsState base c) (hchained : Chained c (path.map (fun r => .of r.delta)))
    (h : reconstructPath net base path = some hops) {hop : Recoverable × AppliedState}
    (hmem : hop ∈ hops) : Hop net c hop ∧ ∀ last, hops.getLast? = some last →
      ReflTransGen net.Step hop.2.commitment last.2.commitment := by
  induction path generalizing base c hops hop with
  | nil =>
    cases h
    cases hmem
  | cons row path ih =>
    unfold reconstructPath at h
    split at h
    · cases h
    next applied happlied =>
    split at h
    swap
    · cases h
    next hnew =>
    obtain ⟨rest, hrest, rfl⟩ := Option.map_eq_some_iff.mp h
    obtain ⟨hprev, next, hnext, htail⟩ := hchained
    have hprev : row.delta.prevCommitment = c := hprev
    have hnext : row.delta.newCommitment = some next := hnext
    rw [hnew] at hnext
    cases hnext
    have hstep : net.Step c applied.commitment := .of_apply hbase happlied
    have hrec := fun {hop'} (hmem' : hop' ∈ rest) =>
      ih (law.apply_isState happlied) htail hrest hmem'
    rcases List.mem_cons.mp hmem with rfl | hmem
    · refine ⟨⟨law.apply_isState happlied, hprev ▸ hstep, .single hstep⟩, fun last hlast => ?_⟩
      cases rest with
      | nil => cases hlast; exact .refl
      | cons hop' rest =>
        have hlast' : (hop' :: rest).getLast? = some last := by simpa using hlast
        exact (hrec (List.mem_of_getLast? hlast')).1.reached
    · obtain ⟨hhop, hlast⟩ := hrec hmem
      refine ⟨⟨hhop.state, hhop.step, .head hstep hhop.reached⟩, fun last hl => hlast last ?_⟩
      cases rest with
      | nil => cases hmem
      | cons hop' rest => simpa using hl

theorem makes_promotePath_of_lands {hops : List (Recoverable × AppliedState)}
    (h : ∀ hop ∈ hops, Lands net w hop.1.delta hop.2) :
    Makes (From (landing net cfg) pid w) (promotePath net cfg fence hops) := by
  induction hops with
  | nil => trivial
  | cons hop hops ih =>
    refine (makes_promotion (h hop List.mem_cons_self) _).bind' fun _ => ih fun hop' hmem => ?_
    exact h hop' (.tail _ hmem)

theorem makes_singleRow (law : net.Lawful) {s : StateObject}
    (hs : net.IsState s.stateJson s.commitment) {onChain : Commitment}
    (hchain : onChain ∈ w.chain.history) (live : List Recoverable) :
    Makes (From (landing net cfg) pid w) (reconcileSingleRow net cfg fence s onChain live) := by
  induction live with
  | nil => trivial
  | cons row rows ih =>
    unfold reconcileSingleRow
    split
    swap
    · exact ih
    next hrow =>
    split
    · exact ih
    next applied happlied =>
    split
    swap
    · exact ih
    next hreached =>
    refine makes_promotion ⟨law.apply_isState happlied, ?_, .inr (hreached ▸ hchain)⟩ _
    exact hrow.1 ▸ .of_apply hs happlied

/-- What the reconcile pass promotes lies between the stored commitment and the
one the chain reports. -/
theorem makes_chainAdvance (law : net.Lawful) (one : net.OneLineage) (hi : LandingInv net cfg w)
    {s : StateObject} (hs : net.IsState s.stateJson s.commitment)
    (hlog : s.commitment ∈ w.ghost.storedLog) {onChain : Commitment}
    (hchain : onChain ∈ w.chain.history) (live : List Recoverable) :
    Makes (From (landing net cfg) pid w) (reconcileChainAdvance net cfg fence s onChain live) := by
  unfold reconcileChainAdvance reconcileRecoverablePath
  dsimp only
  split
  · split
    · trivial
    next hops hpath =>
    split
    swap
    · trivial
    next hlast =>
    obtain ⟨last, hlast, hend⟩ := (Option.any_eq_true ..).mp hlast
    have hend : last.2.commitment = onChain := of_decide_eq_true hend
    refine makes_promotePath_of_lands fun hop hmem => ?_
    obtain ⟨hhop, hleads⟩ := reconstructPath_hops law hs
      (Recoverable.selectRecoverablePath_chained _ _ _) hpath hmem
    refine ⟨hhop.state, hhop.step, ?_⟩
    rcases hi.stored_mem hlog with hastray | hstored
    · exact .inl hastray
    · exact .inr (hi.chain.between law one hstored hchain hhop.reached (hend ▸ hleads last hlast))
  · exact makes_singleRow law hs hchain live

theorem ensures_reconcileAccount (law : net.Lawful) (one : net.OneLineage) (interval : Option Nat) :
    Ensures (machine net) (landing net cfg) pid (reconcileAccount net cfg fence interval)
      (fun _ _ => True) w := by
  unfold reconcileAccount
  refine ensures_seq (makes_orFail (makes_query quietly_landing _)) fun candidates w₁ _ => ?_
  split
  · exact Ensures.pure' trivial
  refine ensures_seq (makes_now quietly_landing) fun now w₂ _ => ?_
  refine ensures_seq (makes_orFail (makes_query quietly_landing _)) fun recoverable w₃ _ => ?_
  refine ensures_seq (makes_write fun _ _ => trivial) fun _ w₄ _ => ?_
  refine ensures_seq (makes_orFail (makes_query quietly_landing _)) fun superseded w₅ _ => ?_
  refine ensures_seq (makes_expireRecoverable quietly_landing _ _ fun _ _ _ _ _ _ => trivial)
    fun expired w₆ _ => ?_
  dsimp only
  split
  · exact ensures_of_makes (makes_finish _)
  split
  · exact ensures_of_makes (makes_finish _)
  refine ensures_seq (makes_cleanUpProposals quietly_landing _) fun _ w₇ _ => ?_
  refine Ensures.bind' ((ensures_pullState _).mono fun s w₈ _ hs => ?_)
  refine Ensures.bind' ((ensures_verify law one _ _).mono fun v w₉ hle hv => ?_)
  split
  · next onChain =>
    exact ensures_of_makes ((makes_chainAdvance law one hv.1 hs.1 (hle.log hs.2.1) (hv.2 _ rfl) _).bind'
      fun _ => makes_finish _)
  · exact ensures_of_makes (makes_finish _)

end Processor

/-! ## Configuration -/

namespace ConfigureAccount
variable {net : Network} {cfg : Config} {pid : Nat} {w : World} {params : ConfigureAccountParams}

theorem ensures_storedHead :
    Ensures (machine net) (landing net cfg) pid (storedHead net)
      (fun base w' => ∀ stored, base = some stored →
        LandingInv net cfg w' ∧ stored.commitment ∈ w'.ghost.storedLog) w := by
  unfold storedHead
  refine Ensures.bind' ((ensures_rows .pullStateHead _).mono fun rows w₁ _ hrows => ?_)
  obtain ⟨hi, n, rfl⟩ := hrows
  split
  · exact Ensures.pure' (by simp)
  next head hhead =>
  obtain ⟨s, hs, rfl⟩ := Option.map_eq_some_iff.mp hhead
  split
  · refine Ensures.pure' fun stored hstored => ?_
    cases hstored
    exact ⟨hi, (hi.state hs).2⟩
  · refine Ensures.bind' ((ensures_pullState _).mono fun full w₂ _ hfull => ?_)
    refine Ensures.pure' fun stored hstored => ?_
    cases hstored
    exact ⟨hfull.2.2, hfull.2.1⟩

/-- The chain's vouch: the commitment is one of the account's, and unless the
node lagged it descends from all that was stored before. -/
theorem ensures_ensureOnChainState (law : net.Lawful) (one : net.OneLineage)
    (commitment : Commitment) (newer : Option StateHead) :
    Ensures (machine net) (landing net cfg) pid (ensureOnChainState commitment newer)
      (fun _ w' => commitment ∈ w'.chain.history ∧ ∀ x ∈ w.ghost.storedLog,
        w'.Astray ∨ w'.ghost.staleVouch = true ∨ ReflTransGen net.Step x commitment) w := by
  unfold ensureOnChainState
  refine Ensures.bind' ((ensures_orFail ((ensures_verify law one commitment .configured).mono
    fun r w₁ _ hr v hv => And.intro hr.1 (hr.2 v hv))).mono fun v w₁ hle hv => ?_)
  obtain ⟨hi, hv⟩ := hv
  split
  · refine Ensures.pure' ⟨hv.1, fun x hx => ?_⟩
    rcases hi.stored_mem (hle.log hx) with hastray | hmem
    · exact .inl hastray
    · rcases hv.2 rfl with hstale | hall
      · exact .inr (.inl hstale)
      · exact .inr (.inr (hall x hmem))
  · exact Ensures.throw' _
  · split
    · exact Ensures.throw' _
    · exact Ensures.throw' _

/-- The stored head a request goes on with. -/
theorem ensures_storedBaseOf (existing : Option AccountMetadata) :
    Ensures (machine net) (landing net cfg) pid (storedBaseOf net existing)
      (fun base w' => ∀ stored, base = some stored →
        LandingInv net cfg w' ∧ stored.commitment ∈ w'.ghost.storedLog) w := by
  unfold storedBaseOf
  split
  · exact ensures_storedHead
  · exact Ensures.pure' (by simp)

/-- What is known of a state once it was vouched for. -/
def Vouched (net : Network) (w : World) (initialState : StateJson) (base : Option StateHead)
    (head : StateHead) : Prop :=
  match base with
  | some stored => w.Astray ∨ (head.commitment ∈ w.chain.history ∧
      (w.ghost.staleVouch = true ∨ ReflTransGen net.Step stored.commitment head.commitment))
  | none => (head.nonce = some 0 ∧ net.validateFirstState initialState = true) ∨
      head.commitment ∈ w.chain.history

theorem Vouched.climb {w' : World} {initialState : StateJson} {base : Option StateHead}
    {head : StateHead} (h : Vouched net w initialState base head) (hle : w.Climbs w') :
    Vouched net w' initialState base head := by
  unfold Vouched at h ⊢
  split at h
  · rcases h with hastray | ⟨hmem, hleads⟩
    · exact .inl (hle.astray hastray)
    · exact .inr ⟨hle.history hmem, hleads.imp hle.stale id⟩
  · exact h.imp id hle.history

theorem ensures_ensureVouched (law : net.Lawful) (one : net.OneLineage)
    {existing : Option AccountMetadata} {base : Option StateHead} {head : StateHead}
    {signer : String} (hbase : ∀ stored, base = some stored →
      LandingInv net cfg w ∧ stored.commitment ∈ w.ghost.storedLog) :
    Ensures (machine net) (landing net cfg) pid
      (ensureVouched net params existing base head (vouchFor existing base head signer))
      (fun _ w' => Vouched net w' params.initialState base head) w := by
  unfold ensureVouched
  split
  · -- the chain vouches
    refine (ensures_ensureOnChainState law one _ _).mono fun _ w' _ hv => ?_
    unfold Vouched
    cases base with
    | some stored =>
      rcases hv.2 _ (hbase stored rfl).2 with hastray | hleads
      · exact .inl hastray
      · exact .inr ⟨hv.1, hleads⟩
    | none => exact .inr hv.1
  · -- a first state, where nothing is stored
    next hvouch =>
    have hfirst : base = none ∧ head.nonce = some 0 := by
      unfold vouchFor at hvouch
      repeat' split at hvouch
      all_goals first
        | exact ⟨rfl, ‹_›⟩
        | cases hvouch
    obtain ⟨rfl, hnonce⟩ := hfirst
    split
    · next hvalid => exact Ensures.pure' (.inl ⟨hnonce, hvalid⟩)
    · exact Ensures.throw' _
  · -- the stored state itself
    next hvouch =>
    have hsame : ∃ stored, base = some stored ∧ stored.commitment = head.commitment := by
      unfold vouchFor at hvouch
      repeat' split at hvouch
      all_goals first
        | exact ⟨_, rfl, ‹_›⟩
        | cases hvouch
    obtain ⟨stored, rfl, heq⟩ := hsame
    refine Ensures.pure' ?_
    obtain ⟨hi, hlog⟩ := hbase stored rfl
    rcases hi.stored_mem hlog with hastray | hmem
    · exact .inl hastray
    · exact .inr ⟨heq ▸ hmem, .inr (heq ▸ .refl)⟩

theorem makes_writeState_of_vouched {base : Option StateHead} {head : StateHead} (created : Bool)
    (h : Vouched net w params.initialState base head) :
    Makes (From (landing net cfg) pid w)
      (writeState base ⟨params.initialState, head.commitment, head.nonce⟩ created) := by
  unfold writeState
  split
  · refine (makes_orFail (makes_write fun w' hle => ?_)).bind' fun _ => ?_
    · exact h.climb hle
    · split <;> trivial
  · exact makes_orFail (makes_write fun w' hle => h.climb hle)

end ConfigureAccount

section Bodies
variable {net : Network} {cfg : Config} {pid : Nat} {w : World}

open ConfigureAccount in
theorem ensures_configureAccount (law : net.Lawful) (one : net.OneLineage)
    (params : ConfigureAccountParams) :
    Ensures (machine net) (landing net cfg) pid (configureAccount net cfg params)
      (fun _ _ => True) w := by
  unfold configureAccount
  refine ensures_seq (makes_orFail (makes_query quietly_landing _)) fun existing w₁ _ => ?_
  refine ensures_seq (makes_unfinishedClaim quietly_landing _) fun unfinished w₂ _ => ?_
  refine ensures_seq (makes_rejectDisallowedSchemes _ _) fun _ w₃ _ => ?_
  refine ensures_seq makes_validate fun head w₄ _ => ?_
  refine ensures_seq (makes_claim (fun _ _ => trivial) _) fun created w₅ _ => ?_
  refine ensures_seq (makes_claimed quietly_landing _ _) fun existing w₆ _ => ?_
  refine ensures_seq (makes_flag quietly_landing) fun late w₇ _ => ?_
  split
  · exact Ensures.throw' _
  refine Ensures.bind' ((ensures_storedBaseOf existing).mono fun base w₈ _ hbase => ?_)
  refine Ensures.bind' ((ensures_ensureVouched law one hbase).mono fun _ w₉ _ hvouched => ?_)
  refine ensures_seq (makes_ensureNotOlder quietly_landing _ _) fun _ w₁₀ hle => ?_
  refine ensures_of_makes ?_
  refine (makes_writeState_of_vouched _ (hvouched.climb hle)).bind' fun _ => ?_
  exact (makes_writeAuth (fun _ _ => trivial) _).bind' fun _ => makes_clearRelease quietly_landing _ _ _

theorem callsFit_landing {req : Request} (hreq : req.isConfigure = false) :
    CallsFit net cfg req (From (landing net cfg) pid w) where
  quiet := quietly_landing
  submit := fun _ _ _ _ _ => trivial
  state := fun h => by rw [hreq] at h; cases h
  createMetadata := fun _ _ => trivial
  setMetadata := fun _ _ => trivial
  create := fun _ _ _ _ _ _ => trivial
  claim := fun _ _ _ _ _ _ => trivial
  queue := fun _ _ _ _ _ => trivial
  resolve := fun _ _ _ _ _ => trivial
  send := fun _ _ _ _ _ _ => trivial

/-- Every process keeps the discipline. -/
theorem body_landing (law : net.Lawful) (one : net.OneLineage) (req : Request) :
    wp (machine net) (landing net cfg) pid (body net cfg req) (fun _ _ => True) w := by
  have hprogram : Ensures (machine net) (landing net cfg) pid (req.program net cfg)
      (fun _ _ => True) w := by
    cases req with
    | fullPass fence => exact Processor.ensures_processFullPass law one
    | recentPass fence maxAge pages cursor =>
      exact ensures_seq (makes_now quietly_landing) fun _ _ _ =>
        Processor.ensures_processRecentPages law one _ _ _ _
    | reconcilePass fence interval =>
      refine ensures_seq (makes_flag quietly_landing) fun late w₁ _ => ?_
      split
      · exact Ensures.pure' trivial
      · exact Ensures.absorb_seq (Processor.ensures_reconcileAccount law one _)
          fun _ _ _ => Ensures.pure' trivial
    | configure params => exact ensures_configureAccount law one params
    | _ => exact ensures_of_makes (makes_program (callsFit_landing rfl) rfl)
  exact wp_bind (wp_mono hprogram fun _ _ _ _ _ _ _ => ⟨trivial, fun _ _ _ _ _ _ => trivial⟩)

end Bodies

/-- What is known of the world in every run, and of a call when it is made. -/
theorem Reachable.landing {net : Network} (law : net.Lawful) (one : net.OneLineage) {cfg : Config}
    {G : RunGuard} {w₀ : World} (hfresh : w₀.Fresh net) {c : SystemConf}
    (h : Reachable net cfg G w₀ c) {pid : Nat} {req : Request} {op : Op} {k : Res op → GProg Unit}
    (hp : c.procs pid = some (req, .call op k)) :
    op.Fits net cfg ∧ LandingInv net cfg c.world ∧ LandingOk net c.world op :=
  Reach.ok (landing_kept law cfg) (fun req _ _ => body_calls net cfg req) (.of_fresh hfresh)
    (fun _ req _ _ _ => body_landing law one req) h hp

theorem Reachable.landingInv {net : Network} (law : net.Lawful) (one : net.OneLineage)
    {cfg : Config} {G : RunGuard} {w₀ : World} (hfresh : w₀.Fresh net) {c : SystemConf}
    (h : Reachable net cfg G w₀ c) : LandingInv net cfg c.world :=
  (Reach.wp (landing_kept law cfg) (fun req _ _ => body_calls net cfg req) (.of_fresh hfresh)
    (fun _ req _ _ _ => body_landing law one req) h).1

end Guardian
