import Guardian.Rows

/- What a pass writes, it has read. A pass computes every status and every
   deletion from a row of its own read, and drops a retained row only after its
   retention. `held` is the discipline that says so; it needs nothing of the
   network or of the other processes. -/
namespace Guardian

open Interleaving Service

/-- The process read `d` for its pass, or has returned since. -/
def World.Holds (w : World) (pid : Nat) (d : DeltaObject) : Prop :=
  (pid, d) ∈ w.ghost.held ∨ pid ∈ w.finished

/-- What a pass makes sure of before it writes. -/
def HeldOk (cfg : Config) (pid : Nat) (w : World) : Op → Prop
  | .commit (.discardCandidate _ kind snapshot) =>
    (∃ d, w.Holds pid d ∧ SameDelta snapshot d) ∧
      (kind = .retained → w.Holds pid snapshot ∧ (0 < cfg.retainedTtlSeconds →
        snapshot.status.timestamp + cfg.retainedTtlSeconds ≤ w.clock))
  | .commit (.updateCandidateStatus _ _ snapshot) =>
    (∃ d, w.Holds pid d ∧ SameDelta snapshot d) ∧ snapshot.status.isCandidate = true
  | .write (.pruneSupersededDeltas before) => before ≤ w.clock - cfg.retainedTtlSeconds
  | _ => True

/-- Rows stay held until their process returns, and time passes. -/
def held (cfg : Config) : Discipline Op World where
  inv := fun _ => True
  le := fun w w' => (∀ pid d, w.Holds pid d → w'.Holds pid d) ∧ w.clock ≤ w'.clock
  ok := fun pid op w => HeldOk cfg pid w op
  le_refl := fun _ => ⟨fun _ _ h => h, le_rfl⟩
  le_trans := fun h h' => ⟨fun pid d hd => h'.1 pid d (h.1 pid d hd), h.2.trans h'.2⟩

section Kept
variable {net : Network} {cfg : Config} {pid : Nat} {op : Op} {w w' : World}

theorem Effect.clock_eq (h : Effect pid w op w') : w'.clock = w.clock := by
  cases h <;> rfl

theorem World.finish_holds {q : Nat} {d : DeltaObject} (h : w.Holds q d) : (w.finish pid).Holds q d := by
  by_cases hq : q = pid
  · exact .inr (by rw [hq]; exact List.mem_cons_self)
  · rcases h with h | h
    · exact .inl (List.mem_filter.mpr ⟨h, by simpa using hq⟩)
    · exact .inr (.tail _ h)

/-- The rows processes hold change by a read and by a return only. -/
theorem Effect.held_cases (h : Effect pid w op w') :
    (w'.ghost.held = w.ghost.held ∧ w'.finished = w.finished) ∨
    (∃ q rows, op = .query q ∧ w'.finished = w.finished ∧ w'.db = w.db ∧
      w'.ghost.held = (q.held (q.run w.db rows)).map (fun d => (pid, d)) ++ w.ghost.held) ∨
    w' = w.finish pid := by
  cases h with
  | read q rows => exact .inr (.inl ⟨q, rows, rfl, rfl, rfl, rfl⟩)
  | returned => exact .inr (.inr rfl)
  | _ => exact .inl ⟨rfl, rfl⟩

theorem Effect.holds_mono (h : Effect pid w op w') {q : Nat} {d : DeltaObject} (hd : w.Holds q d) :
    w'.Holds q d := by
  rcases h.held_cases with ⟨heq, hf⟩ | ⟨_, _, _, hf, _, heq⟩ | rfl
  · simpa only [World.Holds, heq, hf] using hd
  · rcases hd with hd | hd
    · exact .inl (by rw [heq]; exact List.mem_append_right _ hd)
    · exact .inr (hf ▸ hd)
  · exact World.finish_holds hd

/-- Every call and every act keeps the discipline. -/
theorem held_kept (net : Network) (cfg : Config) (P : Op → Prop) :
    (held cfg).Kept (machine net) P where
  call := by
    intro pid op ch w r w' _ _ hx _
    have heff := (exec_effect hx).2
    exact ⟨trivial, fun _ _ => heff.holds_mono, heff.clock_eq.ge⟩
  act := by
    intro a w w' ha _
    cases act_effect ha with
    | tick seconds => exact ⟨trivial, fun _ _ h => h, Nat.le_add_right _ _⟩
    | crash pid => exact ⟨trivial, fun _ _ h => World.finish_holds h, le_rfl⟩
    | mine => exact ⟨trivial, fun _ _ h => h, le_rfl⟩

end Kept

/-! ## The passes -/

/-- The call is fine from `w` on. -/
def From {W : Type} (D : Discipline Op W) (pid : Nat) (w : W) (o : Op) : Prop :=
  ∀ w', D.le w w' → D.ok pid o w'

section Passes
variable {W Ch Act : Type} (M : Machine Op Res W Ch Act) (D : Discipline Op W)

/-- What a discipline has to hold of the reads of a pass; the rest of a pass
follows from it, whatever machine it runs on. -/
structure PassReads (cfg : Config) (pid : Nat) : Prop where
  quiet : ∀ {o w}, o.quiet = true → D.ok pid o w
  promote : ∀ {p w}, D.ok pid (.commit (.promoteCandidate p)) w
  queue : ∀ {w}, Ensures M D pid (orFail (query (.pullCandidateDeltas true)) .storageError : Service _)
    (fun rows w' => ∀ delta ∈ rows, WritesFit cfg (From D pid w') delta) w
  recent : ∀ {w since cursor}, Ensures M D pid
    (orFail (query (.pullRecentCandidateDeltas since cursor)) .storageError : Service _)
    (fun rows w' => ∀ delta ∈ rows, WritesFit cfg (From D pid w') delta) w
  recoverable : ∀ {w}, Ensures M D pid (now : Service _) (fun t w' => ∀ {w₁}, D.le w' w₁ →
    Ensures M D pid
      (orFail (query (.pullRecoverableDeltas (abandonedCutoff cfg t))) .storageError : Service _)
      (fun rows w₂ => From D pid w₂ (.write (.pruneSupersededDeltas (abandonedCutoff cfg t))) ∧
        ∀ delta ∈ rows, cfg.retainedTtlSeconds ≤ t - delta.status.timestamp →
          From D pid w₂ (.commit (.discardCandidate delta.nonce .retained delta))) w₁) w

variable {M D} {net : Network} {cfg : Config} {pid : Nat} {w : W} {fence : LeaseFence}
  {ε α β : Type}

theorem ensures_of_makes {x : Proc ε α} (hx : Makes (From D pid w) x) :
    Ensures M D pid x (fun _ _ => True) w :=
  Ensures.of_makes hx (fun _ w' h hle => h w' hle) fun _ _ => trivial

theorem ensures_orFail {x : Proc ε (Option α)} {e : ε} {Q : α → W → Prop}
    (hx : Ensures M D pid x (fun r w' => ∀ a, r = some a → Q a w') w) :
    Ensures M D pid (orFail x e) Q w := by
  refine Ensures.bind' (hx.mono fun r w' _ hr => ?_)
  cases r with
  | some a => exact Ensures.pure' (hr a rfl)
  | none => exact Ensures.throw' e

theorem ensures_guard {c : Prop} [Decidable c] {e : ε} {f : α → Proc ε β} {y : Proc ε β}
    {Q : β → W → Prop} (h : ¬c → Ensures M D pid y Q w) :
    Ensures M D pid (if c then fail e >>= f else y) Q w := by
  split
  · exact Ensures.throw' e
  · next hc => exact h hc

theorem ensures_seq {x : Proc ε α} {f : α → Proc ε β} {R : β → W → Prop}
    (hx : Makes (From D pid w) x) (hf : ∀ a w', D.le w w' → Ensures M D pid (f a) R w') :
    Ensures M D pid (x >>= f) R w :=
  Ensures.seq hx (fun _ w' h hle => h w' hle) hf

namespace PassReads

theorem quietly (h : PassReads M D cfg pid) {o : Op} (ho : o.quiet = true) : From D pid w o :=
  fun _ _ => h.quiet ho

theorem promotions (h : PassReads M D cfg pid) : Processor.PromotionsFit net (From D pid w) :=
  fun _ _ _ _ => h.promote

theorem appliedPromotions (h : PassReads M D cfg pid) : Processor.AppliedFit net (From D pid w) :=
  Processor.PromotionsFit.applied h.promotions

theorem processAccount (h : PassReads M D cfg pid) :
    Ensures M D pid (Processor.processAccount net cfg fence) (fun _ _ => True) w := by
  unfold Processor.processAccount
  refine ensures_seq (makes_accountMetadata h.quietly) fun metadata w₁ _ => ?_
  refine Ensures.bind' (h.queue.mono fun rows w₂ _ hw => ensures_of_makes ?_)
  split
  · split
    · exact (makes_write (h.quietly rfl)).bind' fun _ => trivial
    · trivial
  · exact Processor.makes_processCandidateList h.quietly _ (fun delta hd _ =>
      Processor.makes_processCandidate h.quietly (hw delta hd) h.promotions _ _) hw

theorem processFullPass (h : PassReads M D cfg pid) :
    Ensures M D pid (Processor.processFullPass net cfg fence) (fun _ _ => True) w := by
  unfold Processor.processFullPass
  refine ensures_seq (makes_orFail (makes_query h.quietly _)) fun listed w₁ _ => ?_
  split
  swap
  · exact Ensures.pure' trivial
  refine ensures_seq (makes_flag h.quietly) fun late w₂ _ => ?_
  split
  · exact Ensures.pure' trivial
  · exact Ensures.absorb_seq h.processAccount fun _ _ _ => Ensures.pure' trivial

theorem processRecentPages (h : PassReads M D cfg pid) (maxAge : Nat) (cutoff : Time)
    (pages : List (Option RecentCandidateCursor)) (cursor : Option RecentCandidateCursor) :
    Ensures M D pid (Processor.processRecentPages net cfg fence maxAge cutoff pages cursor)
      (fun _ _ => True) w := by
  induction pages generalizing cursor w with
  | nil => exact Ensures.pure' trivial
  | cons next pages ih =>
    unfold Processor.processRecentPages
    refine ensures_seq (makes_flag h.quietly) fun late w₁ _ => ?_
    split
    · exact Ensures.pure' trivial
    refine Ensures.bind' (h.recent.mono fun rows w₂ _ hw => ?_)
    split
    · exact Ensures.pure' trivial
    refine ensures_seq (makes_flag h.quietly) fun late w₃ hle => ?_
    split
    · exact Ensures.pure' trivial
    have hw₃ : ∀ delta ∈ rows, WritesFit cfg (From D pid w₃) delta := fun delta hd =>
      ⟨fun hc hs w' hle' => (hw delta hd).update hc hs w' (D.le_trans hle hle'),
        fun hc hz w' hle' => (hw delta hd).discard hc hz w' (D.le_trans hle hle')⟩
    exact ensures_seq (Processor.makes_processRecentPage h.quietly h.appliedPromotions _ hw₃) fun _ _ _ => ih _

theorem reconcileAccount (h : PassReads M D cfg pid) (interval : Option Nat) :
    Ensures M D pid (Processor.reconcileAccount net cfg fence interval) (fun _ _ => True) w := by
  unfold Processor.reconcileAccount
  refine ensures_seq (makes_orFail (makes_query h.quietly _)) fun candidates w₁ _ => ?_
  split
  · exact Ensures.pure' trivial
  refine Ensures.bind' (h.recoverable.mono fun t w₂ _ hread => ?_)
  refine Ensures.bind' ((hread (D.le_refl w₂)).mono fun rows w₃ _ hrows => ?_)
  obtain ⟨hprune, hdrop⟩ := hrows
  refine ensures_of_makes ?_
  refine Makes.bind' (makes_write hprune) fun _ => ?_
  refine Makes.bind' (makes_orFail (makes_query h.quietly _)) fun superseded => ?_
  refine Makes.bind' (Processor.makes_expireRecoverable h.quietly _ _
    fun delta hd _ => hdrop delta hd) fun expired => ?_
  repeat' with_reducible first
    | exact Processor.makes_finish _
    | exact Processor.makes_cleanUpProposals h.quietly _
    | exact makes_pullState h.quietly _
    | exact Processor.makes_reconcileChainAdvance h.quietly h.appliedPromotions _ _ _
    | refine makes_node (h.quietly rfl)
    | refine Makes.bind' ?_ fun _ => ?_
    | dsimp only
    | split

/-- A process whose requests are fine by themselves keeps the discipline as soon
as the reads of the passes do. -/
theorem body (h : PassReads M D cfg pid) (req : Request)
    (hrest : req.isPass = false → Makes (From D pid w) (req.program net cfg))
    (hreturns : ∀ {w'}, D.ok pid .returns w') :
    wp M D pid (body net cfg req) (fun _ _ => True) w := by
  have hprogram : Ensures M D pid (req.program net cfg) (fun _ _ => True) w := by
    cases req with
    | fullPass fence => exact h.processFullPass
    | recentPass fence maxAge pages cursor =>
      exact ensures_seq (makes_now h.quietly) fun _ _ _ => h.processRecentPages _ _ _ _
    | reconcilePass fence interval =>
      refine ensures_seq (makes_flag h.quietly) fun late w₁ _ => ?_
      split
      · exact Ensures.pure' trivial
      · exact Ensures.absorb_seq (h.reconcileAccount _) fun _ _ _ => Ensures.pure' trivial
    | _ => exact ensures_of_makes (hrest rfl)
  exact wp_bind (wp_mono hprogram fun _ _ _ _ _ _ _ => ⟨hreturns, fun _ _ _ _ _ _ => trivial⟩)

end PassReads
end Passes

/-! ## The reads of a pass -/

section Reads
variable {net : Network} {cfg : Config} {pid : Nat} {w : World} {ε : Type}

theorem heldOk_of_quiet {o : Op} (h : o.quiet = true) : HeldOk cfg pid w o := by
  cases o with
  | write s => cases s <;> trivial
  | commit tx => cases tx <;> trivial
  | _ => trivial

/-- The writes computed from a candidate the process read. -/
theorem writesFit_of_holds {delta : DeltaObject} (h : w.Holds pid delta)
    (hc : delta.status.isCandidate = true) : WritesFit cfg (From (held cfg) pid w) delta where
  update := fun hd _ _ hle => ⟨⟨delta, hle.1 pid delta h, hd.same⟩, hd.2.2.2.2.trans hc⟩
  discard := fun hd _ _ hle => ⟨⟨delta, hle.1 pid delta h, hd.same⟩, fun hk => by cases hk⟩

/-- A read: the rows are those of some database, and the process holds the ones
it goes on to write. -/
theorem ensures_read (q : Query) (e : ε) :
    Ensures (machine net) (held cfg) pid (orFail (query q) e)
      (fun rows w' => (∃ db n, rows = q.run db n) ∧ ∀ d ∈ q.held rows, w'.Holds pid d) w := by
  refine Ensures.bind' (Ensures.op' fun w₁ _ _ => ⟨trivial, fun ch r w₂ hx _ _ => ?_⟩)
  simp only [machine, exec] at hx
  split at hx
  · cases hx
  split at hx
  · cases hx
    refine Ensures.pure' ⟨⟨_, _, rfl⟩, fun d hd => .inl ?_⟩
    exact List.mem_append_left _ (List.mem_map_of_mem hd)
  · cases hx
    exact Ensures.throw' e

/-- The clock, as a lower bound for later. -/
theorem ensures_now : Ensures (machine net) (held cfg) pid (now : Proc ε _)
    (fun t w' => t ≤ w'.clock) w := by
  refine Ensures.op' fun w₁ _ _ => ⟨trivial, fun ch r w₂ hx _ _ => ?_⟩
  simp only [machine, exec] at hx
  split at hx
  · cases hx
  · cases hx
    exact le_rfl

theorem isCandidate_of_mem_candidates {db : Db} {d : DeltaObject} (h : d ∈ db.candidates.map (·.delta)) :
    d.status.isCandidate = true := by
  obtain ⟨r, hr, rfl⟩ := List.mem_map.mp h
  exact (Table.mem_select.mp hr).2

theorem mem_recentCandidates {db : Db} {since : Time} {cursor : Option RecentCandidateCursor}
    {n : Nat} {d : DeltaObject} (h : d ∈ db.recentCandidates since cursor n) :
    d.status.isCandidate = true := by
  have hd := (List.mem_insertionSort _).mp (List.mem_of_mem_take h)
  exact isCandidate_of_mem_candidates (List.mem_of_mem_filter hd)

theorem passReads_held : PassReads (machine net) (held cfg) cfg pid where
  quiet := heldOk_of_quiet
  promote := trivial
  queue := by
    intro w
    refine (ensures_read _ _).mono fun rows w' _ hrows delta hd => ?_
    obtain ⟨⟨db, n, hrun⟩, hheld⟩ := hrows
    exact writesFit_of_holds (hheld delta hd) (isCandidate_of_mem_candidates (hrun ▸ hd))
  recent := by
    intro w since cursor
    refine (ensures_read _ _).mono fun rows w' _ hrows delta hd => ?_
    obtain ⟨⟨db, n, hrun⟩, hheld⟩ := hrows
    exact writesFit_of_holds (hheld delta hd) (mem_recentCandidates (hrun ▸ hd))
  recoverable := by
    intro w
    refine ensures_now.mono fun t w' _ ht w₁ hle₁ => ?_
    refine (ensures_read _ _).mono fun rows w₂ hle₂ hrows => ?_
    have hclock : t ≤ w₂.clock := ht.trans (hle₁.2.trans hle₂.2)
    refine ⟨fun w₃ hle => Nat.sub_le_sub_right (hclock.trans hle.2) _, ?_⟩
    -- a row is dropped once its retention has passed at the time the pass took
    intro delta hd hage w₃ hle
    have hholds := hle.1 _ _ (hrows.2 delta hd)
    refine ⟨⟨delta, hholds, .refl delta⟩, fun _ => ⟨hholds, fun hon => ?_⟩⟩
    have hlater : t ≤ w₃.clock := hclock.trans hle.2
    have hpast : cfg.retainedTtlSeconds + delta.status.timestamp ≤ t := by omega
    rw [Nat.add_comm]
    exact hpast.trans hlater

theorem callsFit_held {req : Request} : CallsFit net cfg req (From (held cfg) pid w) where
  quiet := fun ho _ _ => heldOk_of_quiet ho
  submit := fun _ _ _ _ _ => trivial
  state := fun _ _ _ => ⟨fun _ _ => trivial, fun _ _ => trivial⟩
  createMetadata := fun _ _ => trivial
  setMetadata := fun _ _ => trivial
  create := fun _ _ _ _ _ _ => trivial
  claim := fun _ _ _ _ _ _ => trivial
  queue := fun _ _ _ _ _ => trivial
  resolve := fun _ _ _ _ _ => trivial
  send := fun _ _ _ _ _ _ => trivial

end Reads

/-- What is known of a call when it is made: it fits, and the rows it is
computed from were read. -/
theorem Reachable.held {net : Network} {cfg : Config} {G : RunGuard} {w₀ : World} {c : SystemConf}
    (h : Reachable net cfg G w₀ c) {pid : Nat} {req : Request} {op : Op}
    {k : Res op → GProg Unit} (hp : c.procs pid = some (req, .call op k)) :
    op.Fits net cfg ∧ HeldOk cfg pid c.world op := by
  obtain ⟨hfits, _, hok⟩ := Reach.ok (held_kept net cfg (Op.Fits net cfg))
    (fun req _ _ => body_calls net cfg req) trivial
    (fun pid req w _ _ => passReads_held.body req
      (makes_program callsFit_held) trivial) h hp
  exact ⟨hfits, hok⟩

end Guardian
