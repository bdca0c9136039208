import Guardian.Lib.Beside
import Guardian.PassCalls
import Guardian.Safety.RecoverablePath
import Guardian.System

/- Promoting a recoverable path (`reconcile_recoverable_path`). The whole path is
   replayed before the first promotion, and each promotion is a transaction of its
   own, which others may come between: a promotion can be refused, find another
   base, lose its lease, fail, or take effect and lose its answer. The loop goes on
   after a refusal and after a stale base.

   What keeps the promoted rows a prefix is the base gate. Where every row changes
   the state, commitments along a replayed path differ, so with a hop left out the
   stored commitment is neither the base nor the post commitment of a later one,
   unless another writer puts it there. A row that ends at its own base can be left
   out unnoticed: `path_rows_left_out`. -/
namespace Guardian

open Interleaving Service

/-- The commitment of the stored state. -/
def World.stored (w : World) : Option Commitment := w.db.state.map (·.commitment)

/-! ## Promotions of one process -/

/-- The promotions that took effect, each with the rows it was made on. -/
abbrev PromotionLog := List (CandidatePromotion × Db)

/-- Whether a promotion applies. -/
def Db.promotes (current : Bool) (p : CandidatePromotion) (db : Db) : Bool :=
  match db.promoteCandidate current p with
  | some (.applied _, _) => true
  | _ => false

/-- A promotion that took effect is noted, whether or not its answer arrived. -/
def notePromotion : Note Op World Choice PromotionLog
  | _, .commit (.promoteCandidate p), ch, w, log =>
    if ch.fault ≠ .refused ∧ w.lock.any (fun lock => w.db.promotes lock.2 p) = true then
      log ++ [(p, w.db)]
    else log
  | _, _, _, _, log => log

section Calls
variable {pid : Nat} {ch : Choice} {w w' : World}

theorem Db.promotes_iff {db : Db} {current : Bool} {p : CandidatePromotion} :
    db.promotes current p = true ↔
      ∃ settled db', db.promoteCandidate current p = some (.applied settled, db') := by
  unfold Db.promotes
  split
  · next settled db' heq => exact iff_of_true rfl ⟨settled, db', heq⟩
  · next hnot =>
    refine iff_of_false Bool.false_ne_true ?_
    rintro ⟨settled, db', heq⟩
    exact hnot settled db' heq

theorem notePromotion_commit {p : CandidatePromotion} {r : Res (.commit (.promoteCandidate p))}
    (hx : exec pid (.commit (.promoteCandidate p)) ch w = some (r, w')) (log : PromotionLog) :
    (notePromotion pid (.commit (.promoteCandidate p)) ch w log = log ∧ w'.db = w.db) ∨
    (notePromotion pid (.commit (.promoteCandidate p)) ch w log = log ++ [(p, w.db)] ∧
      Db.Promoted p w.db w'.db) := by
  simp only [notePromotion]
  unfold exec at hx
  split at hx
  · cases hx
  dsimp only at hx
  cases hlock : w.lock with
  | none =>
    rw [hlock] at hx
    cases hx
  | some lock =>
    obtain ⟨owner, current⟩ := lock
    rw [hlock] at hx
    dsimp only at hx
    split at hx
    swap
    · cases hx
    rw [Option.any_some]
    split at hx
    · next hrefused =>
      cases hx
      exact .inl ⟨if_neg fun h => h.1 hrefused, rfl⟩
    · next hnone _ =>
      cases hx
      refine .inl ⟨if_neg fun h => ?_, rfl⟩
      obtain ⟨settled, db', heq⟩ := Db.promotes_iff.mp h.2
      have hrun : Tx.run current w.db (.promoteCandidate p) = some (.applied settled, db') := heq
      rw [hnone] at hrun
      cases hrun
    · next answer db' hrun hfault =>
      cases hx
      have hrun : w.db.promoteCandidate current p = some (answer, db') := hrun
      obtain ⟨hnot, rfl⟩ | ⟨settled, rfl, hpromoted⟩ := Db.promoteCandidate_cases hrun
      · refine .inl ⟨if_neg fun h => ?_, rfl⟩
        obtain ⟨settled, db'', heq⟩ := Db.promotes_iff.mp h.2
        rw [hrun] at heq
        cases heq
        exact hnot settled rfl
      · exact .inr ⟨if_pos ⟨hfault, Db.promotes_iff.mpr ⟨settled, db', hrun⟩⟩, hpromoted⟩

theorem quiet_promotes_nothing {op : Op} {r : Res op} (hq : op.quiet = true)
    (hx : exec pid op ch w = some (r, w')) (log : PromotionLog) :
    notePromotion pid op ch w log = log ∧ w'.stored = w.stored := by
  constructor
  · unfold notePromotion
    split
    · cases hq
    · rfl
  · obtain ⟨-, heffect⟩ := exec_effect hx
    cases heffect with
    | submitted | stateSubmitted | stateReplaced | promoted | discarded | updated | admitted
      | resolved | metadataCreated | authSet | pruned | reserved => cases hq
    | idle | read | began | rolledBack | leased | asked | returned => rfl
    | flagCleared =>
      show (w.db.clearPendingFlagIfNone).state.map _ = _
      unfold Db.clearPendingFlagIfNone
      split <;> rfl
    | plain h => exact congrArg (Option.map _) h.state
    | abandonRecorded h => exact congrArg (Option.map _) h.rest.state
    | renewed h =>
      obtain ⟨e, f, -, -, rfl⟩ := h.renews
      rfl
    | settled h =>
      obtain ⟨e, evidence, row, state, -, -, -, -, -, -, -, rfl⟩ := h.settles
      rfl

end Calls

/-! ## One promotion -/

section Promotion
variable {net : Network} {cfg : Config} {fence : LeaseFence} {pid : Nat}
  {env : World → World → Prop} {I : World → PromotionLog → Prop} {x : World × PromotionLog}

variable (env I) in
/-- What is known of the stored commitment and of the promotions made: the
environment leaves it so, and it is enough for `I`. -/
structure Knows (K : Option Commitment → PromotionLog → Prop) : Prop where
  stable : ∀ w w' log, env w w' → K w.stored log → K w'.stored log
  enough : ∀ w log, K w.stored log → I w log

theorem Knows.wait {K : Option Commitment → PromotionLog → Prop} (hK : Knows env I K)
    {y : World × PromotionLog} (hrely : (beside Op env I).rely pid x y) (hx : K x.1.stored x.2) :
    K y.1.stored y.2 := by
  obtain ⟨w, log⟩ := x
  obtain ⟨w', log'⟩ := y
  obtain ⟨hsteps, rfl⟩ := hrely
  exact stable_steps hK.stable hsteps hx

theorem Knows.steady {K : Option Commitment → PromotionLog → Prop} (hK : Knows env I K) :
    (beside Op env I).Steady ((machine net).recorded notePromotion)
      (freeGuard Op World Choice Act PromotionLog) pid (fun o => o.quiet = true)
      (fun x => K x.1.stored x.2) where
  stable := hK.wait
  own := by
    rintro op ch r ⟨w, log⟩ ⟨w', log'⟩ hquiet - hx - h
    obtain ⟨hx, rfl⟩ := recorded_exec hx
    obtain ⟨hlog, hstored⟩ := quiet_promotes_nothing hquiet hx log
    show K w'.stored (notePromotion pid op ch w log)
    rw [hlog, hstored]
    exact h
  ok := fun _ _ h => hK.enough _ _ h

/-- A promotion that is made leads from `K` to `K'`; one that is not keeps `K`. -/
def Advances (net : Network) (delta : DeltaObject) (applied : AppliedState)
    (source : PromotableKind) (K K' : Option Commitment → PromotionLog → Prop) : Prop :=
  ∀ p db db' log, Promotes net delta applied source p → Db.Promoted p db db' →
    K (db.state.map (·.commitment)) log → K' (some applied.commitment) (log ++ [(p, db)])

theorem ensures_promote {K K' : Option Commitment → PromotionLog → Prop} {delta : DeltaObject}
    {applied : AppliedState} {source : PromotableKind} {p : CandidatePromotion}
    (hK : Knows env I K) (hle : ∀ c log, K c log → K' c log)
    (hadvances : Advances net delta applied source K K') (hp : Promotes net delta applied source p)
    (hx : K x.1.stored x.2) :
    (beside Op env I).Ensures ((machine net).recorded notePromotion)
      (freeGuard Op World Choice Act PromotionLog) pid
      (fenced fence (.promoteCandidate p) : Service _) (fun _ y => K' y.1.stored y.2)
      (fun y => K' y.1.stored y.2) x := by
  refine Rely.Ensures.seq hK.steady (Makes.op' (o := Op.begin fence) rfl) hx (fun h => hle _ _ h)
    fun _ y hy => ?_
  refine Rely.Ensures.op' fun z hrely _ => ?_
  obtain ⟨w, log⟩ := z
  have hz : K w.stored log := hK.wait hrely hy
  refine ⟨hK.enough _ _ hz, fun ch r w₂ _ hcommit _ => ?_⟩
  obtain ⟨w', log'⟩ := w₂
  obtain ⟨hcommit, rfl⟩ := recorded_exec hcommit
  show K' w'.stored (notePromotion pid (.commit (.promoteCandidate p)) ch w log)
  obtain ⟨hlog, hdb⟩ | ⟨hlog, hpromoted⟩ := notePromotion_commit hcommit log
  · rw [hlog, World.stored, hdb]
    exact hle _ _ hz
  · have hstored : w'.stored = some applied.commitment := by
      rw [World.stored, hpromoted.state, hp.state]
      rfl
    rw [hlog, hstored]
    exact hadvances p _ _ log hp hpromoted hz

/-- `canonicalize_verified_delta` makes at most its one promotion. -/
theorem ensures_canonicalizeVerifiedDelta {K K' : Option Commitment → PromotionLog → Prop}
    {delta : DeltaObject} {applied : AppliedState} {source : PromotableKind}
    (hK : Knows env I K) (hK' : Knows env I K') (hle : ∀ c log, K c log → K' c log)
    (hadvances : Advances net delta applied source K K') (hx : K x.1.stored x.2) :
    (beside Op env I).Ensures ((machine net).recorded notePromotion)
      (freeGuard Op World Choice Act PromotionLog) pid
      (Processor.canonicalizeVerifiedDelta net cfg fence delta applied source)
      (fun _ y => K' y.1.stored y.2) (fun y => K' y.1.stored y.2) x := by
  unfold Processor.canonicalizeVerifiedDelta
  refine Rely.Ensures.seq hK.steady (makes_accountMetadata id) hx (fun h => hle _ _ h)
    fun metadata y hy => ?_
  refine Rely.Ensures.seq hK.steady (makes_pullState id _) hy (fun h => hle _ _ h)
    fun _ y hy => ?_
  refine Rely.Ensures.seq hK.steady (makes_now id) hy (fun h => hle _ _ h) fun now y hy => ?_
  refine Rely.Ensures.bind' (Rely.Ensures.bind' ((ensures_promote hK hle hadvances
    ⟨rfl, ⟨_, rfl⟩, rfl, _, rfl⟩ hy).mono fun answer y hy => ?_))
  cases answer with
  | none => exact hy
  | some answer =>
    refine Rely.Ensures.frame hK'.steady ?_ hy id
    cases answer with
    | staleLease => exact makes_fail _
    | notCandidate => exact makes_pure _
    | staleBase => exact makes_pure _
    | applied settled =>
      unfold Processor.releaseIfGuardianSwitched
      repeat' with_reducible first
        | exact makes_pure _
        | exact makes_now id
        | exact makes_query id _
        | refine makes_write ?_
        | refine Makes.bind' ?_ fun _ => ?_
        | dsimp only
        | split
      all_goals rfl

end Promotion

/-! ## The path -/

/-- Rows with the state each of them leads to, one after the other from the
document `base`. -/
def Replays {α : Type} (net : Network) (delta : α → DeltaObject) :
    StateJson → List (α × AppliedState) → Prop
  | _, [] => True
  | base, (row, applied) :: hops =>
    net.applyDelta base (delta row).deltaPayload = some applied ∧
      Replays net delta applied.stateJson hops

/-- A row was promoted with its replayed state, whose commitment is the one it
records, out of a row of the kind it was read as, from its base. -/
structure PromotesHop (net : Network) (hop : Recoverable × AppliedState)
    (entry : CandidatePromotion × Db) : Prop where
  promotion : Promotes net hop.1.delta hop.2 hop.1.source entry.1
  recorded : hop.1.delta.newCommitment = some hop.2.commitment
  applied : ∃ db', Db.Promoted entry.1 entry.2 db'

/-- Every hop leads to another commitment. -/
def Moving {α : Type} : Commitment → List (α × AppliedState) → Prop
  | _, [] => True
  | stored, hop :: hops => stored ≠ hop.2.commitment ∧ Moving hop.2.commitment hops

/-- The post commitment of the last hop. -/
def lastPost {α : Type} (stored : Commitment) (hops : List (α × AppliedState)) : Commitment :=
  (hops.getLast?.map (·.2.commitment)).getD stored

/-- The commitments a path leads over. -/
def OnPath (stored : Commitment) (path : List Recoverable) (c : Commitment) : Prop :=
  c = stored ∨ ∃ row ∈ path, row.delta.newCommitment = some c

section Replay
variable {α : Type} {net : Network} {delta : α → DeltaObject} {base : StateJson}
  {stored : Commitment} {hops : List (α × AppliedState)}

theorem lastPost_append (done : List (α × AppliedState)) (hop : α × AppliedState) :
    lastPost stored (done ++ [hop]) = hop.2.commitment := by
  rw [lastPost, List.getLast?_append, List.getLast?_singleton]
  rfl

theorem lastPost_cons (hop : α × AppliedState) (rest : List (α × AppliedState)) :
    lastPost stored (hop :: rest) = lastPost hop.2.commitment rest := by
  cases rest with
  | nil => rfl
  | cons next rest => rw [lastPost, lastPost, List.getLast?_cons_cons, List.getLast?_cons,
      Option.map_some, Option.getD_some, Option.getD_some]

/-- A path that moves raises the account's nonce. -/
theorem rank_lt_lastPost (law : net.Coherent) (hbase : net.IsState base stored)
    (hreplays : Replays net delta base hops) (hmoving : Moving stored hops) :
    hops = [] ∨ law.rank stored < law.rank (lastPost stored hops) := by
  induction hops generalizing base stored with
  | nil => exact .inl rfl
  | cons hop rest ih =>
    obtain ⟨happly, hrest⟩ := hreplays
    have hstep : law.rank stored < law.rank hop.2.commitment :=
      law.rank_lt_of_ne ⟨base, _, hop.2, hbase, happly, rfl⟩ hmoving.1
    refine .inr ?_
    rw [lastPost_cons]
    obtain rfl | hlt := ih (law.apply_isState happly) hrest hmoving.2
    · exact hstep
    · exact hstep.trans hlt

/-- A part of a path that moves ends below the whole. -/
theorem lastPost_rank (law : net.Coherent) (hbase : net.IsState base stored)
    (hreplays : Replays net delta base hops) (hmoving : Moving stored hops)
    {taken : List (α × AppliedState)} (htaken : taken <+: hops) :
    taken = hops ∨ law.rank (lastPost stored taken) < law.rank (lastPost stored hops) := by
  induction taken generalizing hops base stored with
  | nil =>
    obtain rfl | hlt := rank_lt_lastPost law hbase hreplays hmoving
    · exact .inl rfl
    · exact .inr hlt
  | cons hop taken ih =>
    cases hops with
    | nil => exact absurd (List.prefix_nil.mp htaken) (List.cons_ne_nil _ _)
    | cons first hops =>
      obtain ⟨rfl, hlater⟩ := List.cons_prefix_cons.mp htaken
      obtain ⟨happly, hrest⟩ := hreplays
      rw [lastPost_cons, lastPost_cons]
      obtain rfl | hlt := ih (law.apply_isState happly) hrest hmoving.2 hlater
      · exact .inl rfl
      · exact .inr hlt

/-- Rows that do not end at their own base move. -/
theorem moving_of_chained (hchained : Chained stored (hops.map (fun h => .of (delta h.1))))
    (hrecorded : ∀ h ∈ hops, (delta h.1).newCommitment = some h.2.commitment)
    (hmoves : ∀ h ∈ hops, (delta h.1).newCommitment ≠ some (delta h.1).prevCommitment) :
    Moving stored hops := by
  induction hops generalizing stored with
  | nil => trivial
  | cons hop hops ih =>
    obtain ⟨hprev, next, hnext, hrest⟩ := hchained
    have hpost : some hop.2.commitment = some next :=
      (hrecorded hop List.mem_cons_self).symm.trans hnext
    cases hpost
    refine ⟨fun heq => hmoves hop List.mem_cons_self ?_, ih hrest
      (fun h hmem => hrecorded h (.tail _ hmem)) (fun h hmem => hmoves h (.tail _ hmem))⟩
    have hbase : (delta hop.1).prevCommitment = stored := hprev
    rw [hbase, heq]
    exact hnext

theorem Moving.front {done rest : List (α × AppliedState)} (h : Moving stored (done ++ rest)) :
    Moving stored done := by
  induction done generalizing stored with
  | nil => trivial
  | cons first done ih => exact ⟨h.1, ih h.2⟩

/-- Each row builds on the post commitment of the row before it. -/
theorem chained_hop {done rest : List (α × AppliedState)}
    {hop : α × AppliedState}
    (hchained : Chained stored ((done ++ hop :: rest).map (fun h => .of (delta h.1))))
    (hrecorded : ∀ h ∈ done, (delta h.1).newCommitment = some h.2.commitment) :
    (delta hop.1).prevCommitment = lastPost stored done := by
  induction done generalizing stored with
  | nil => exact hchained.1
  | cons first done ih =>
    obtain ⟨-, next, hnext, hrest⟩ := hchained
    have hpost : some first.2.commitment = some next :=
      (hrecorded first List.mem_cons_self).symm.trans hnext
    cases hpost
    rw [lastPost_cons]
    exact ih hrest fun h hmem => hrecorded h (.tail _ hmem)

theorem Replays.front {done rest : List (α × AppliedState)}
    (h : Replays net delta base (done ++ rest)) : Replays net delta base done := by
  induction done generalizing base with
  | nil => trivial
  | cons first done ih => exact ⟨h.1, ih h.2⟩

end Replay

section Path
variable {net : Network} {cfg : Config} {fence : LeaseFence} {pid : Nat}
  {env : World → World → Prop} {path : List Recoverable} {hops : List (Recoverable × AppliedState)}
  {base : StateJson} {stored : Commitment}

theorem reconstructPath_eq_some (h : Processor.reconstructPath net base path = some hops) :
    hops.map (·.1) = path ∧ Replays net (·.delta) base hops ∧
      ∀ hop ∈ hops, hop.1.delta.newCommitment = some hop.2.commitment := by
  induction path generalizing base hops with
  | nil =>
    cases h
    exact ⟨rfl, trivial, fun hop hmem => absurd hmem List.not_mem_nil⟩
  | cons row path ih =>
    rw [Processor.reconstructPath] at h
    split at h
    · cases h
    · rename_i applied happly
      split at h
      · rename_i hrecorded
        obtain ⟨rest, hrest, rfl⟩ := Option.map_eq_some_iff.mp h
        obtain ⟨hmap, hreplays, hall⟩ := ih hrest
        refine ⟨?_, ⟨happly, hreplays⟩, List.forall_mem_cons.mpr ⟨hrecorded, hall⟩⟩
        rw [List.map_cons, hmap]
      · cases h

/-- In order, whatever else happens. -/
def InOrder (net : Network) (hops : List (Recoverable × AppliedState)) :
    Option Commitment → PromotionLog → Prop :=
  fun _ log => ∃ promoted, promoted.Sublist hops ∧ List.Forall₂ (PromotesHop net) promoted log

/-- A prefix, at whose end the stored state is, or where `moved` allows. -/
def UpTo (net : Network) (stored : Commitment) (moved : Option Commitment → Prop)
    (hops : List (Recoverable × AppliedState)) : Option Commitment → PromotionLog → Prop :=
  fun c log => ∃ promoted, promoted <+: hops ∧ List.Forall₂ (PromotesHop net) promoted log ∧
    (c = some (lastPost stored promoted) ∨ moved c)

theorem forall₂_snoc {α β : Type} {R : α → β → Prop} {l : List α} {l' : List β} {a : α} {b : β}
    (h : List.Forall₂ R l l') (hab : R a b) : List.Forall₂ R (l ++ [a]) (l' ++ [b]) :=
  List.rel_append h (.cons hab .nil)

theorem advances_inOrder {done : List (Recoverable × AppliedState)}
    {hop : Recoverable × AppliedState}
    (hrecorded : hop.1.delta.newCommitment = some hop.2.commitment) :
    Advances net hop.1.delta hop.2 hop.1.source (InOrder net done) (InOrder net (done ++ [hop])) := by
  rintro p db db' log hp hpromoted ⟨promoted, hsub, hall⟩
  exact ⟨promoted ++ [hop], hsub.append_right [hop], forall₂_snoc hall ⟨hp, hrecorded, db', hpromoted⟩⟩

/-- With a hop left out, the stored commitment is off the next hop's base and
target. -/
theorem advances_upTo (law : net.Coherent) (hbase : net.IsState base stored)
    {moved : Option Commitment → Prop} {done : List (Recoverable × AppliedState)}
    {hop : Recoverable × AppliedState} (hreplays : Replays net (·.delta) base (done ++ [hop]))
    (hmoving : Moving stored (done ++ [hop]))
    (hprev : hop.1.delta.prevCommitment = lastPost stored done)
    (hoff : ∀ c, c = hop.1.delta.prevCommitment ∨ c = hop.2.commitment → ¬moved (some c))
    (hrecorded : hop.1.delta.newCommitment = some hop.2.commitment) :
    Advances net hop.1.delta hop.2 hop.1.source (UpTo net stored moved done)
      (UpTo net stored moved (done ++ [hop])) := by
  rintro p db db' log hp hpromoted ⟨promoted, htaken, hall, hstored⟩
  obtain ⟨state, hstate, hgate⟩ := hpromoted.base
  obtain ⟨now, hdelta⟩ := hp.delta
  have hgate : state.commitment = hop.1.delta.prevCommitment ∨ state.commitment = hop.2.commitment := by
    rw [hdelta, hp.state] at hgate
    exact hgate
  have hat : state.commitment = lastPost stored promoted := by
    rw [hstate, Option.map_some] at hstored
    obtain heq | hmoved := hstored
    · exact Option.some.inj heq
    · exact absurd hmoved (hoff _ hgate)
  -- Nothing was left out: otherwise the nonce is behind both gates.
  have hall' : promoted = done := by
    have hlast : lastPost stored (done ++ [hop]) = hop.2.commitment := lastPost_append done hop
    have hnext := lastPost_rank law hbase hreplays hmoving (List.prefix_append done [hop])
    rw [hlast] at hnext
    have hstep : law.rank (lastPost stored done) < law.rank hop.2.commitment := by
      obtain heq | hlt := hnext
      · exact absurd heq (by simp)
      · exact hlt
    obtain heq | hlt := lastPost_rank law hbase hreplays.front hmoving.front htaken
    · exact heq
    · rw [hprev, hat] at hgate
      obtain heq | heq := hgate
      · rw [heq] at hlt
        exact absurd hlt (Nat.lt_irrefl _)
      · rw [heq] at hlt
        exact absurd (hlt.trans hstep) (Nat.lt_irrefl _)
  subst hall'
  refine ⟨promoted ++ [hop], List.prefix_rfl, forall₂_snoc hall ⟨hp, hrecorded, db', hpromoted⟩, ?_⟩
  exact .inl (congrArg some (lastPost_append promoted hop).symm)

/-- What is known after each hop, hop by hop. -/
structure Follows (net : Network) (env : World → World → Prop)
    (hops : List (Recoverable × AppliedState))
    (K : List (Recoverable × AppliedState) → Option Commitment → PromotionLog → Prop) : Prop where
  stable : ∀ done w w' log, env w w' → K done w.stored log → K done w'.stored log
  mono : ∀ done done' c log, done <+: done' → K done c log → K done' c log
  advances : ∀ done hop rest, hops = done ++ hop :: rest →
    Advances net hop.1.delta hop.2 hop.1.source (K done) (K (done ++ [hop]))

variable {K : List (Recoverable × AppliedState) → Option Commitment → PromotionLog → Prop}

theorem Follows.knows (hK : Follows net env hops K) {done : List (Recoverable × AppliedState)}
    (hdone : done <+: hops) : Knows env (fun w log => K hops w.stored log) (K done) :=
  ⟨hK.stable done, fun _ log h => hK.mono done hops _ log hdone h⟩

/-- The loop over the hops, by induction on those that are left. -/
theorem ensures_promotePath (hK : Follows net env hops K)
    {done rest : List (Recoverable × AppliedState)} (hsplit : hops = done ++ rest)
    {x : World × PromotionLog} (hx : K done x.1.stored x.2) :
    (beside Op env (fun w log => K hops w.stored log)).Ensures
      ((machine net).recorded notePromotion) (freeGuard Op World Choice Act PromotionLog) pid
      (Processor.promotePath net cfg fence rest) (fun _ y => K hops y.1.stored y.2)
      (fun y => K hops y.1.stored y.2) x := by
  induction rest generalizing done x with
  | nil =>
    rw [List.append_nil] at hsplit
    subst hsplit
    exact Rely.Ensures.pure' hx
  | cons hop rest ih =>
    have hdone : done <+: hops := ⟨hop :: rest, hsplit.symm⟩
    have hsplit' : hops = (done ++ [hop]) ++ rest := by rw [hsplit, List.append_assoc]; rfl
    have hnext : done ++ [hop] <+: hops := ⟨rest, hsplit'.symm⟩
    refine Rely.Ensures.bind' (Rely.wp_mono (ensures_canonicalizeVerifiedDelta
      (hK.knows hdone) (hK.knows hnext)
      (fun c log => hK.mono done (done ++ [hop]) c log (List.prefix_append done [hop]))
      (hK.advances done hop rest hsplit) hx) fun r y hy => ?_)
    cases r with
    | ok _ => exact ih hsplit' hy
    | error _ => exact hK.mono _ hops _ _ hnext hy

/-- A procedure that ends at once does nothing. -/
theorem Beside.of_done {α : Type} {a : α} {w₀ w : World} {log : PromotionLog} {p : GProg α}
    (hr : Beside (machine net) notePromotion env pid (.done a) w₀ [] p w log) :
    p = .done a ∧ log = [] ∧ Relation.ReflTransGen env w₀ w := by
  induction hr with
  | start => exact ⟨rfl, rfl, .refl⟩
  | call ch _ _ ih => cases ih.1
  | other _ hstep ih => exact ⟨ih.1, ih.2.1, ih.2.2.tail hstep⟩

/-- The whole procedure: nothing is promoted before all of the path is replayed. -/
theorem reconcileRecoverablePath_keeps {currentState : StateObject} {onChain : Commitment}
    {w₀ w : World} {log : PromotionLog} {p : GProg (Except GuardianError Unit)}
    (hr : Beside (machine net) notePromotion env pid
      (Processor.reconcileRecoverablePath net cfg fence currentState onChain path).run w₀ [] p w log)
    (hstable : ∀ w w' log, env w w' → K [] w.stored log → K [] w'.stored log)
    (hfollows : ∀ hops, hops.map (·.1) = path → Replays net (·.delta) currentState.stateJson hops →
      (∀ hop ∈ hops, hop.1.delta.newCommitment = some hop.2.commitment) → Follows net env hops K)
    (hstart : K [] w₀.stored []) :
    ∃ hops, hops.map (·.1) <+: path ∧ Replays net (·.delta) currentState.stateJson hops ∧
      (log ≠ [] → hops.map (·.1) = path ∧ lastPost currentState.commitment hops = onChain) ∧
      K hops w.stored log := by
  have hnothing : Beside (machine net) notePromotion env pid
      (.done (.ok ()) : GProg (Except GuardianError Unit)) w₀ [] p w log →
      ∃ hops, hops.map (·.1) <+: path ∧ Replays net (·.delta) currentState.stateJson hops ∧
        (log ≠ [] → hops.map (·.1) = path ∧ lastPost currentState.commitment hops = onChain) ∧
        K hops w.stored log := by
    intro hr
    obtain ⟨-, rfl, hsteps⟩ := Beside.of_done hr
    exact ⟨[], List.nil_prefix, trivial, fun h => absurd rfl h, stable_steps hstable hsteps hstart⟩
  unfold Processor.reconcileRecoverablePath at hr
  split at hr
  · exact hnothing hr
  · rename_i hops hreconstructed
    obtain ⟨hmap, hreplays, hrecorded⟩ := reconstructPath_eq_some hreconstructed
    have hK := hfollows hops hmap hreplays hrecorded
    split at hr
    · -- all of the path replays, and its last row ends at the chain's head
      rename_i hends
      refine ⟨hops, hmap ▸ List.prefix_rfl, hreplays, fun _ => ⟨hmap, ?_⟩, ?_⟩
      · obtain ⟨last, hlast, hon⟩ := (Option.any_eq_true ..).mp hends
        rw [lastPost, hlast]
        exact of_decide_eq_true hon
      · refine Beside.keeps (I := fun w log => K hops w.stored log) (hK.stable hops) ?_ hr
        refine Rely.wp_mono (ensures_promotePath hK (List.nil_append hops).symm hstart)
          fun r y hy => ?_
        cases r with
        | ok _ => exact hy
        | error _ => exact hy
    · exact hnothing hr

theorem follows_inOrder
    (hrecorded : ∀ hop ∈ hops, hop.1.delta.newCommitment = some hop.2.commitment) :
    Follows net env hops (InOrder net) where
  stable := fun _ _ _ _ _ h => h
  mono := by
    rintro done done' c log hdone ⟨promoted, hsub, hall⟩
    exact ⟨promoted, hsub.trans hdone.sublist, hall⟩
  advances := by
    rintro done hop rest rfl
    exact advances_inOrder (hrecorded hop (List.mem_append_right done List.mem_cons_self))

/-- Other writers keep off the path. -/
theorem UpTo.stable {moved : Option Commitment → Prop} {w w' : World} {log : PromotionLog}
    (henv : ∀ w w', env w w' → w'.stored = w.stored ∨ moved w'.stored) (hstep : env w w')
    (h : UpTo net stored moved hops w.stored log) : UpTo net stored moved hops w'.stored log := by
  obtain ⟨promoted, htaken, hall, hstored⟩ := h
  refine ⟨promoted, htaken, hall, ?_⟩
  obtain hsame | hmoved := henv w w' hstep
  · rw [hsame]
    exact hstored
  · exact .inr hmoved

theorem follows_upTo (law : net.Coherent) (hbase : net.IsState base stored)
    {moved : Option Commitment → Prop}
    (henv : ∀ w w', env w w' → w'.stored = w.stored ∨ moved w'.stored)
    (hoff : ∀ c, OnPath stored (hops.map (·.1)) c → ¬moved (some c))
    (hchained : Chained stored (hops.map (fun h => .of h.1.delta)))
    (hreplays : Replays net (·.delta) base hops) (hmoving : Moving stored hops)
    (hrecorded : ∀ hop ∈ hops, hop.1.delta.newCommitment = some hop.2.commitment) :
    Follows net env hops (UpTo net stored moved) where
  stable := fun _ _ _ _ hstep h => h.stable henv hstep
  mono := by
    rintro done done' c log hdone ⟨promoted, htaken, hall, hstored⟩
    exact ⟨promoted, htaken.trans hdone, hall, hstored⟩
  advances := by
    rintro done hop rest rfl
    have hmem : hop ∈ done ++ hop :: rest := List.mem_append_right done List.mem_cons_self
    have hprev : hop.1.delta.prevCommitment = lastPost stored done :=
      chained_hop hchained fun h hd => hrecorded h (List.mem_append_left _ hd)
    have hfront : Replays net (·.delta) base (done ++ [hop]) := by
      rw [← List.singleton_append, ← List.append_assoc] at hreplays
      exact hreplays.front
    have hmoves : Moving stored (done ++ [hop]) := by
      rw [← List.singleton_append, ← List.append_assoc] at hmoving
      exact hmoving.front
    -- both ends of the hop are on the path, where no other writer goes
    have hhop : ∀ c, c = hop.1.delta.prevCommitment ∨ c = hop.2.commitment → ¬moved (some c) := by
      intro c hc
      apply hoff c
      obtain rfl | rfl := hc
      · rw [hprev]
        obtain rfl | ⟨front, last, rfl⟩ := done.eq_nil_or_concat'
        · exact .inl rfl
        · rw [lastPost_append]
          have hlast : last ∈ front ++ [last] ++ hop :: rest :=
            List.mem_append_left _ (List.mem_append_right _ List.mem_cons_self)
          exact .inr ⟨last.1, List.mem_map_of_mem hlast, hrecorded last hlast⟩
      · exact .inr ⟨hop.1, List.mem_map_of_mem hmem, hrecorded hop hmem⟩
    exact advances_upTo law hbase hfront hmoves hprev hhop (hrecorded hop hmem)

end Path

/-- For every path and every run, whatever the environment does between two calls
and whichever calls are refused, fail or lose their answer: the rows promoted so
far are rows of the path in its order, each promoted out of a row of the kind it
was read as, with a replayed state of the commitment the row records; nothing is
promoted unless all of the path replays to the chain's head. As long as no other
writer moves the stored state onto the path, and no row ends at its own base, they
are a prefix of it, and where no other writer moves the state at all, the stored
commitment is the last one's post commitment. -/
theorem recoverable_path_prefix_promoted {net : Network} (law : net.Coherent) {cfg : Config}
    {fence : LeaseFence} {pid : Nat} {env : World → World → Prop} {currentState : StateObject}
    {onChain : Commitment} {path : List Recoverable} {w₀ w : World} {log : PromotionLog}
    {p : GProg (Except GuardianError Unit)}
    (hstate : net.IsState currentState.stateJson currentState.commitment)
    (hpath : Chained currentState.commitment (path.map (fun row => .of row.delta)))
    (hr : Beside (machine net) notePromotion env pid
      (Processor.reconcileRecoverablePath net cfg fence currentState onChain path).run w₀ [] p w
      log) :
    (∃ hops promoted, hops.map (·.1) <+: path ∧ Replays net (·.delta) currentState.stateJson hops ∧
      (log ≠ [] → hops.map (·.1) = path ∧ lastPost currentState.commitment hops = onChain) ∧
      promoted.Sublist hops ∧ List.Forall₂ (PromotesHop net) promoted log) ∧
    ((∀ row ∈ path, row.delta.newCommitment ≠ some row.delta.prevCommitment) →
      ∀ moved : Option Commitment → Prop,
      (∀ w w', env w w' → w'.stored = w.stored ∨ moved w'.stored) →
      (∀ c, OnPath currentState.commitment path c → ¬moved (some c)) →
      w₀.stored = some currentState.commitment ∨ moved w₀.stored →
      ∃ promoted, promoted.map (·.1) <+: path ∧ List.Forall₂ (PromotesHop net) promoted log ∧
        (w.stored = some (lastPost currentState.commitment promoted) ∨ moved w.stored)) := by
  constructor
  · obtain ⟨hops, hmap, hreplays, hall, promoted, hsub, hpromoted⟩ :=
      reconcileRecoverablePath_keeps (K := InOrder net) hr (fun _ _ _ _ h => h)
        (fun hops _ _ hrecorded => follows_inOrder hrecorded) ⟨[], List.nil_sublist _, .nil⟩
    exact ⟨hops, promoted, hmap, hreplays, hall, hsub, hpromoted⟩
  · intro hmoves moved henv hoff hstart
    have hstable : ∀ w w' log, env w w' → UpTo net currentState.commitment moved [] w.stored log →
        UpTo net currentState.commitment moved [] w'.stored log :=
      fun _ _ _ hstep h => h.stable henv hstep
    have hfollows : ∀ hops, hops.map (·.1) = path → Replays net (·.delta) currentState.stateJson hops →
        (∀ hop ∈ hops, hop.1.delta.newCommitment = some hop.2.commitment) →
        Follows net env hops (UpTo net currentState.commitment moved) := by
      rintro hops rfl hreplays hrecorded
      rw [List.map_map] at hpath
      have hmoving : Moving currentState.commitment hops := moving_of_chained hpath hrecorded
        fun hop hmem => hmoves hop.1 (List.mem_map_of_mem hmem)
      exact follows_upTo law hstate henv hoff hpath hreplays hmoving hrecorded
    obtain ⟨hops, hmap, -, -, promoted, htaken, hpromoted, hstored⟩ :=
      reconcileRecoverablePath_keeps hr hstable hfollows ⟨[], List.nil_prefix, .nil, hstart⟩
    exact ⟨promoted, (htaken.map _).trans hmap, hpromoted, hstored⟩

/-! ## A path that is re-onboarded in the middle -/

namespace Reonboarded

/-- A parked row that appends `letter`. -/
def row (nonce : Nonce) (base letter : String) : Recoverable where
  ageSeconds := 0
  delta := ⟨nonce, base, some (base ++ letter), letter, .retained 100 (some .orphaned)⟩
  source := .retained

def path : List Recoverable := [row 1 "s" "a", row 2 "sa" "b", row 3 "sab" "c"]

def fence : LeaseFence := ⟨"canonicalization", "a", 0⟩

/-- The account is stored at `s`, three rows are parked, and all three landed. -/
def start : World :=
  let w := Demo.world 0
  { w with
    db := { w.db with
      deltas := ((w.db.deltas.insert ⟨0, (row 1 "s" "a").delta⟩).insert
        ⟨1, (row 2 "sa" "b").delta⟩).insert ⟨2, (row 3 "sab" "c").delta⟩
      nextId := 3
      leases := fun name => if name = "canonicalization" then some ⟨"a", 0, 1000⟩ else none }
    chain := { w.chain with
      entries := [⟨"sabc", 4, none⟩, ⟨"sab", 3, none⟩, ⟨"sa", 2, none⟩], tip := 4 } }

def procedure : GProg (Except GuardianError Unit) :=
  (Processor.reconcileRecoverablePath (.letters 0) Demo.config fence ⟨"s", "s", some 0⟩ "sabc"
    path).run

/-- A `/configure` request at the chain's head. -/
def request : GProg (Except GuardianError Unit) :=
  (configureAccount (.letters 0) Demo.config ⟨"sabc", .midenFalconRpo ["old"], "old"⟩).run

/-- One process handles such a request, from start to end. -/
def configures (w w' : World) : Prop :=
  ∃ r, Beside (machine (.letters 0)) (fun _ _ _ _ h => h) (fun _ _ => False) 2 request w () (.done r)
    w' ()

/-- `n` calls, nothing failing and every read served at the tip. -/
def calls (n : Nat) : List Choice := List.replicate n { block := 4 }

/-- The first row is promoted, the request is handled, and the loop goes on. -/
def run : Option PromotionLog := do
  let (p, w, log) ← playOwn (machine (.letters 0)) notePromotion 1 (calls 6) procedure start []
  let (done, w', _) ← playOwn (machine (.letters 0)) (fun _ _ _ _ h => h) 2 (calls 8) request w ()
  match done with
  | .done _ =>
    let (_, _, log) ← playOwn (machine (.letters 0)) notePromotion 1 (calls 11) p w' log
    return log
  | .call .. => none

end Reonboarded

theorem nonce_of_promotesHop {net : Network} {promoted : List (Recoverable × AppliedState)}
    {log : PromotionLog} (h : List.Forall₂ (PromotesHop net) promoted log) :
    promoted.map (·.1.delta.nonce) = log.map (·.1.delta.nonce) := by
  induction h with
  | nil => rfl
  | cons hhop _ ih =>
    obtain ⟨now, hdelta⟩ := hhop.promotion.delta
    rw [List.map_cons, List.map_cons, ih, hdelta]

theorem nonces_of_prefix {net : Network} {path : List Recoverable}
    {promoted : List (Recoverable × AppliedState)} {log : PromotionLog}
    (hpath : promoted.map (·.1) <+: path) (h : List.Forall₂ (PromotesHop net) promoted log) :
    log.map (·.1.delta.nonce) <+: path.map (·.delta.nonce) := by
  have hnonces := hpath.map (·.delta.nonce)
  rw [List.map_map] at hnonces
  rw [← nonce_of_promotesHop h]
  exact hnonces

namespace Emptied

/-- The first row changes nothing, and was taken out of the table since it was
read; the other two landed. -/
def path : List Recoverable :=
  [Reonboarded.row 1 "s" "", Reonboarded.row 2 "s" "b", Reonboarded.row 3 "sb" "c"]

def start : World :=
  { Reonboarded.start with
    db := { Reonboarded.start.db with
      deltas := (Table.empty.insert ⟨1, (Reonboarded.row 2 "s" "b").delta⟩).insert
        ⟨2, (Reonboarded.row 3 "sb" "c").delta⟩ }
    chain := { Reonboarded.start.chain with
      entries := [⟨"sbc", 3, none⟩, ⟨"sb", 2, none⟩] } }

def procedure : GProg (Except GuardianError Unit) :=
  (Processor.reconcileRecoverablePath (.words 0) Demo.config Reonboarded.fence ⟨"s", "s", some 0⟩
    "sbc" path).run

end Emptied

/-- Two runs in which a row is left out.
  1. A `/configure` request re-onboards the account at the chain's head after the
     first promotion: the second finds another base, and the third, whose target is
     stored already, is made.
  2. With no other writer, the first row ends at its own base and is a candidate no
     more: the others are promoted without it. -/
theorem path_rows_left_out :
    (¬∀ p w log, Beside (machine (.letters 0)) notePromotion Reonboarded.configures 1
        Reonboarded.procedure Reonboarded.start [] p w log →
      ∃ promoted, promoted.map (·.1) <+: Reonboarded.path ∧
        List.Forall₂ (PromotesHop (.letters 0)) promoted log) ∧
    ¬∀ p w log, Beside (machine (.words 0)) notePromotion (fun _ _ => False) 1
        Emptied.procedure Emptied.start [] p w log →
      ∃ promoted, promoted.map (·.1) <+: Emptied.path ∧
        List.Forall₂ (PromotesHop (.words 0)) promoted log := by
  constructor
  · intro hall
    have hrun : Reonboarded.run.map (·.map (·.1.delta.nonce)) = some [1, 3] := by decide +kernel
    obtain ⟨log, hlog, hnonces⟩ := Option.map_eq_some_iff.mp hrun
    obtain ⟨⟨p, w, log₁⟩, hfirst, hlog⟩ := Option.bind_eq_some_iff.mp hlog
    obtain ⟨⟨done, w', _⟩, hrequest, hlog⟩ := Option.bind_eq_some_iff.mp hlog
    cases done with
    | call op k => cases hlog
    | done r =>
      obtain ⟨⟨p', w'', log₂⟩, hlast, hlog⟩ := Option.bind_eq_some_iff.mp hlog
      cases hlog
      have hconfigures : Reonboarded.configures w w' := ⟨r, Beside.start.own hrequest⟩
      obtain ⟨promoted, hpath, hpromoted⟩ :=
        hall p' w'' log (((Beside.start.own hfirst).other hconfigures).own hlast)
      have hskip := nonces_of_prefix hpath hpromoted
      rw [hnonces] at hskip
      exact absurd hskip (by decide)
  · intro hall
    have hrun : (playOwn (machine (.words 0)) notePromotion 1 (Reonboarded.calls 16)
        Emptied.procedure Emptied.start []).any (fun x =>
          decide (x.2.2.map (·.1.delta.nonce) = [2, 3])) = true := by decide +kernel
    obtain ⟨⟨p, w, log⟩, hplay, hnonces⟩ := (Option.any_eq_true ..).mp hrun
    obtain ⟨promoted, hpath, hpromoted⟩ := hall p w log (Beside.start.own hplay)
    have hskip := nonces_of_prefix hpath hpromoted
    rw [show log.map (·.1.delta.nonce) = [2, 3] from of_decide_eq_true hnonces] at hskip
    exact absurd hskip (by decide)

/-- Undisturbed, with the second promotion failing: the first row is promoted, and
its post commitment is stored. -/
theorem recoverable_path_prefix_promoted_failing :
    ∃ p w log, Beside (machine (.letters 0)) notePromotion (fun _ _ => False) 1
        Reonboarded.procedure Reonboarded.start [] p w log ∧ log.length = 1 ∧
      ∃ promoted, promoted.map (·.1) <+: Reonboarded.path ∧
        List.Forall₂ (PromotesHop (.letters 0)) promoted log ∧
        w.stored = some (lastPost "s" promoted) := by
  have hrun : (playOwn (machine (.letters 0)) notePromotion 1
      (Reonboarded.calls 10 ++ [{ fault := .refused }]) Reonboarded.procedure Reonboarded.start
      []).any (fun x => decide (x.2.2.length = 1)) = true := by decide +kernel
  obtain ⟨⟨p, w, log⟩, hplay, hlength⟩ := (Option.any_eq_true ..).mp hrun
  have hr : Beside (machine (.letters 0)) notePromotion (fun _ _ => False) 1 Reonboarded.procedure
      Reonboarded.start [] p w log := Beside.start.own hplay
  have hchained : Chained "s" (Reonboarded.path.map (fun row => .of row.delta)) :=
    ⟨rfl, _, rfl, rfl, _, rfl, rfl, _, rfl, trivial⟩
  have hprefix := (recoverable_path_prefix_promoted (Network.lettersLawful 0).toCoherent
    (Demo.isState_s 0) hchained hr).2 (by decide) (fun _ => False) (fun _ _ h => h.elim)
    (fun _ _ h => h) (.inl rfl)
  obtain ⟨promoted, hpath, hpromoted, hstored⟩ := hprefix
  exact ⟨p, w, log, hr, of_decide_eq_true hlength, promoted, hpath, hpromoted,
    hstored.resolve_right id⟩

end Guardian
