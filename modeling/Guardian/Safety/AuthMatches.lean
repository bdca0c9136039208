import Guardian.Lib.Rely
import Guardian.Safety.OnChain

/- The signer set in force is the stored state's. A promotion writes the two in
   one transaction. A `/configure` writes the state, and then the signers by a
   write that has no condition, so it must not be late: as long as no other
   state is written in between, and nothing cuts the request short there, the
   two agree whenever no `/configure` is under way.

   Where a promotion runs in between, the signers the `/configure` writes are
   those of a state that is no longer stored: `configure_restores_old_signers`. -/
namespace Guardian

open Interleaving Service

/-- The signers are the ones the stored state lists, where it lists any. -/
def World.Lists (net : Network) (w : World) (auth : Auth) : Prop :=
  ∀ s, w.db.state = some s → net.chainCosigners s.stateJson ≠ [] → ∀ signer,
    signer ∈ auth.cosignerCommitments ↔
      signer ∈ (net.chainCosigners s.stateJson).map (·.commitment)

/-- The signer set of the metadata is the one the stored state lists. -/
def World.AuthMatches (net : Network) (w : World) : Prop :=
  ∀ m, w.db.metadata = some m → w.Lists net m.auth

/-- Runs in which no other state is written between the state and the signers of
a `/configure`, and nothing cuts it short between the two: the answer of its state
write arrives, the write of its signers takes effect, and it does not crash. -/
def undisturbedWrites : RunGuard where
  spawn := fun _ _ => true
  call := fun pid op ch w => match op with
    | .write (.submitState ..) | .write (.replaceState ..) => decide (ch.fault ≠ .lost)
    | .write (.setMetadata _) => decide (ch.fault ≠ .refused ∧ w.ghost.stateWriter = some pid)
    | _ => true
  act := fun a w => match a with
    | .crash pid => decide (w.ghost.stateWriter ≠ some pid)
    | _ => true

section Signers
variable {net : Network} {cfg : Config} {pid : Nat} {op : Op} {w w' : World} {ch : Choice}

/-- The signers change by these calls only. -/
theorem Effect.auth_cases (h : Effect pid w op w') :
    w'.db.metadata.map (·.auth) = w.db.metadata.map (·.auth) ∨
    (∃ m, op = .write (.setMetadata m) ∧ w'.db = w.db.setMetadataRow m ∧
      w'.ghost = w.ghost.noteSigners pid) ∨
    (∃ m, op = .write (.createMetadata m) ∧ w.db.metadata = none) ∨
    ∃ p, op = .commit (.promoteCandidate p) ∧ Db.Promoted p w.db w'.db ∧
      w'.ghost.stateWriter = none := by
  cases h with
  | authSet => exact .inr (.inl ⟨_, rfl, rfl, rfl⟩)
  | metadataCreated h => exact .inr (.inr (.inl ⟨_, rfl, h⟩))
  | promoted h => exact .inr (.inr (.inr ⟨_, rfl, h, rfl⟩))
  | submitted h =>
    obtain ⟨m, hm, hm'⟩ := h.metadata
    exact .inl (by simp [hm, hm'])
  | admitted h =>
    obtain ⟨m, hm, hm'⟩ := h.metadata
    exact .inl (by simp [hm, hm'])
  | abandonRecorded h | updated h => exact .inl (by rw [h.rest.metadata])
  | discarded h | resolved h =>
    refine .inl ?_
    rw [h.metadata, Option.map_map]
    rfl
  | flagCleared =>
    refine .inl ?_
    rw [Db.clearPendingFlagIfNone_eq]
    simp [Db.setMetadata, Function.comp_def]
  | plain h =>
    have hm := congrArg (Option.map Prod.fst) h.metadata
    simp only [Option.map_map] at hm
    exact .inl hm
  | reserved h => exact .inl (by rw [h.eq])
  | renewed h =>
    obtain ⟨_, _, _, _, heq⟩ := h.renews
    exact .inl (by rw [heq]; rfl)
  | settled h =>
    obtain ⟨_, _, _, _, _, _, _, _, _, _, _, heq⟩ := h.settles
    exact .inl (by rw [heq]; rfl)
  | _ => exact .inl rfl

/-- What a call does to the state and the signers. -/
inductive SignerStep (pid : Nat) (w : World) : Op → World → Prop where
  | same {op : Op} {w' : World} (state : w'.db.state = w.db.state)
      (writer : w'.ghost.stateWriter = w.ghost.stateWriter)
      (auth : w'.db.metadata.map (·.auth) = w.db.metadata.map (·.auth)) : SignerStep pid w op w'
  | stored {op : Op} {w' : World} (write : ¬op.Promotes) (writer : w'.ghost.stateWriter = some pid)
      (metadata : w'.db.metadata = w.db.metadata) (finished : w'.finished = w.finished) :
      SignerStep pid w op w'
  | set {m : AccountMetadata} {w' : World} (db : w'.db = w.db.setMetadataRow m)
      (ghost : w'.ghost = w.ghost.noteSigners pid) : SignerStep pid w (.write (.setMetadata m)) w'
  | promoted {p : CandidatePromotion} {w' : World} (h : Db.Promoted p w.db w'.db)
      (writer : w'.ghost.stateWriter = none) : SignerStep pid w (.commit (.promoteCandidate p)) w'

/-- The writer changes by these calls only. -/
theorem Effect.writer_cases (h : Effect pid w op w') :
    w'.ghost.stateWriter = w.ghost.stateWriter ∨
      (¬op.Promotes ∧ w'.ghost.stateWriter = some pid) ∨
      w'.ghost.stateWriter = w.ghost.stateWriter.filter (· != pid) ∨
      w'.ghost.stateWriter = none := by
  cases h with
  | stateSubmitted | stateReplaced => exact .inr (.inl ⟨id, rfl⟩)
  | authSet => exact .inr (.inr (.inl rfl))
  | promoted => exact .inr (.inr (.inr rfl))
  | _ => exact .inl rfl

theorem Effect.signer_step (h : Effect pid w op w') (hm : w.db.metadata.isSome = true) :
    SignerStep pid w op w' := by
  rcases h.auth_cases with hauth | ⟨m, rfl, hdb, hg⟩ | ⟨m, _, hnone⟩ | ⟨p, rfl, hp, hw⟩
  · cases h with
    | stateSubmitted => exact .stored id rfl rfl rfl
    | stateReplaced => exact .stored id rfl rfl rfl
    | promoted hp => exact .promoted hp rfl
    | authSet => exact .set rfl rfl
    | submitted h | discarded h | admitted h | resolved h => exact .same h.state rfl hauth
    | abandonRecorded h | updated h => exact .same h.rest.state rfl hauth
    | flagCleared => exact .same (by rw [Db.clearPendingFlagIfNone_eq]; rfl) rfl hauth
    | plain hp => exact .same hp.state rfl hauth
    | reserved h => exact .same (by rw [h.eq]) rfl hauth
    | renewed hp =>
      obtain ⟨_, _, _, _, heq⟩ := hp.renews
      exact .same (by rw [heq]; rfl) rfl hauth
    | settled hp =>
      obtain ⟨_, _, _, _, _, _, _, _, _, _, _, heq⟩ := hp.settles
      exact .same (by rw [heq]; rfl) rfl hauth
    | _ => exact .same rfl rfl hauth
  · exact .set hdb hg
  · rw [hnone] at hm
    cases hm
  · exact .promoted hp hw

/-- The row stays. -/
theorem SignerStep.metadata_isSome (h : SignerStep pid w op w') (hm : w.db.metadata.isSome = true) :
    w'.db.metadata.isSome = true := by
  cases h with
  | same _ _ hauth =>
    have hsome := congrArg Option.isSome hauth
    simpa [hm] using hsome
  | stored _ _ heq => rw [heq]; exact hm
  | set hdb =>
    rw [hdb, Db.setMetadataRow]
    split <;> rfl
  | promoted hp =>
    obtain ⟨_, _, hm'⟩ := hp.metadata
    rw [hm']
    rfl

/-- What is the same in state and signers matches as before. -/
theorem World.AuthMatches.congr (h : w.AuthMatches net) (hs : w'.db.state = w.db.state)
    (hauth : w'.db.metadata.map (·.auth) = w.db.metadata.map (·.auth)) : w'.AuthMatches net := by
  intro m' hm' s hs'
  rw [hm'] at hauth
  obtain ⟨m, hm, heq⟩ := Option.map_eq_some_iff.mp hauth.symm
  have heq : m.auth = m'.auth := heq
  rw [← heq]
  exact h m hm s (hs ▸ hs')

/-- Signers that are listed match once they are written. -/
theorem World.Lists.authMatches {m : AccountMetadata} (h : w.Lists net m.auth)
    (hdb : w'.db = w.db.setMetadataRow m) : w'.AuthMatches net := by
  intro m' hm' s hs
  rw [hdb] at hm' hs
  have hauth : m'.auth = m.auth := by
    simp only [Db.setMetadataRow] at hm'
    split at hm' <;> cases hm' <;> rfl
  have hs' : w.db.state = some s := by
    simp only [Db.setMetadataRow] at hs
    split at hs <;> exact hs
  rw [hauth]
  exact h s hs'

/-- A promotion writes the signers of the state it stores. -/
theorem authMatches_of_promotion (law : net.Coherent) {p : CandidatePromotion}
    (hfits : Op.Fits net cfg (.commit (.promoteCandidate p)))
    (hp : Db.Promoted p w.db w'.db) : w'.AuthMatches net := by
  obtain ⟨delta, applied, source, hlist, hpromotes⟩ := hfits
  intro m hm s hs hlists signer
  rw [hp.state] at hs
  cases hs
  -- the applied state reports the signers of its document, in some order
  have hperm : applied.cosigners.Perm (net.chainCosigners p.state.stateJson) := by
    rw [hpromotes.state]
    rcases hlist with ⟨_, _, happly⟩ | hperm
    · rw [law.apply_cosigners happly]
    · exact hperm
  have hne : applied.cosigners ≠ [] := by
    intro hnil
    rw [hnil] at hperm
    exact hlists (List.nil_perm.mp hperm)
  obtain ⟨auth, hauth⟩ := hpromotes.auth
  have hnew : p.newAuth = some (auth.withChainCosigners applied.cosigners) := by
    rw [hauth, AppliedState.updatedAuth, if_neg (by simpa using hne)]
  obtain ⟨m₀, _, hm'⟩ := hp.metadata
  rw [hm'] at hm
  cases hm
  rw [hnew, Option.getD_some, Auth.cosignerCommitments_withChainCosigners]
  exact (hperm.map _).mem_iff

/-- The discipline: whoever wrote the state last has the signers to write, and
writes those of the state that is stored. -/
def authWrites (net : Network) : Rely Op World where
  inv := fun w => w.db.metadata.isSome = true ∧
    (w.AuthMatches net ∨ ∃ pid, pid ∉ w.finished ∧ w.ghost.stateWriter = some pid)
  rely := fun pid w w' => w'.ghost.stateWriter = some pid →
    w.ghost.stateWriter = some pid ∧ w'.db.state = w.db.state
  ok := fun pid op w => w.ghost.stateWriter = some pid →
    op ≠ .returns ∧ ∀ m, op = .write (.setMetadata m) → w.Lists net m.auth
  refl := fun _ h => ⟨h, rfl⟩
  trans := fun h h' hw => by
    obtain ⟨h₁, h₂⟩ := h' hw
    obtain ⟨h₃, h₄⟩ := h h₁
    exact ⟨h₃, h₂.trans h₄⟩

/-- A block ends no process. -/
theorem act_mine_finished {moves : List Move} (h : act net (.mine moves) w = some w') :
    w'.finished = w.finished := by
  obtain ⟨w₁, hw₁, rfl⟩ := Option.map_eq_some_iff.mp h
  obtain ⟨es, _, rfl⟩ := include_mined .nil hw₁
  rfl

theorem noteSigners_writer {g : Ghost} {q : Nat}
    (h : (g.noteSigners pid).stateWriter = some q) : g.stateWriter = some q ∧ q ≠ pid := by
  obtain ⟨hw, hne⟩ := Option.filter_eq_some_iff.mp h
  exact ⟨hw, by simpa using hne⟩

/-- Every call and every act of an undisturbed run keeps it. -/
theorem authWrites_kept (cfg : Config) (law : net.Coherent) :
    (authWrites net).Kept (machine net) undisturbedWrites (fun _ op _ => op.Fits net cfg) where
  call := by
    intro pid op ch w r w' hK hok hg hx hi
    obtain ⟨hlive, heff⟩ := exec_effect hx
    have hstep := heff.signer_step hi.1
    have hset : ∀ {m}, op = .write (.setMetadata m) → w.ghost.stateWriter = some pid := by
      rintro m rfl
      exact (of_decide_eq_true hg).2
    refine ⟨⟨hstep.metadata_isSome hi.1, ?_⟩, fun {q} hq hw => ?_⟩
    · -- the call itself
      cases hstep with
      | same hs hwriter hauth =>
        rcases hi.2 with hmatch | ⟨q, hq, hqw⟩
        · exact .inl (hmatch.congr hs hauth)
        · refine .inr ⟨q, ?_, hwriter.trans hqw⟩
          cases heff with
          | returned =>
            -- the last state writer does not return before its metadata is set
            intro hmem
            obtain rfl | hmem := List.mem_cons.mp hmem
            · exact (hok hqw).1 rfl
            · exact hq hmem
          | _ => exact hq
      | stored _ hwriter _ hfin => exact .inr ⟨pid, hfin ▸ hlive, hwriter⟩
      | set hdb _ => exact .inl (((hok (hset rfl)).2 _ rfl).authMatches hdb)
      | promoted hp => exact .inl (authMatches_of_promotion law hK hp)
    · -- the position of another request that wrote the state last
      cases hstep with
      | same hs hwriter hauth => exact ⟨hwriter ▸ hw, hs⟩
      | stored _ hwriter =>
        rw [hwriter] at hw
        exact absurd (Option.some.inj hw).symm hq
      | set _ hghost =>
        rw [hghost] at hw
        have hwriter := (noteSigners_writer hw).1
        rw [hset rfl] at hwriter
        exact absurd (Option.some.inj hwriter).symm hq
      | promoted _ hwriter =>
        rw [hwriter] at hw
        cases hw
  act := by
    intro a w w' hg hact hi
    have hdb := (act_effect hact).db
    have hwriter : w'.ghost.stateWriter = w.ghost.stateWriter := by
      cases act_effect hact <;> rfl
    refine ⟨⟨hdb ▸ hi.1, ?_⟩, fun hw => ⟨hwriter ▸ hw, by rw [hdb]⟩⟩
    rcases hi.2 with hmatch | ⟨q, hq, hqw⟩
    · exact .inl (hmatch.congr (by rw [hdb]) (by rw [hdb]))
    · refine .inr ⟨q, ?_, hwriter.trans hqw⟩
      cases a with
      | tick => cases hact; exact hq
      | mine => exact act_mine_finished hact ▸ hq
      | crash pid =>
        cases hact
        have hother : w.ghost.stateWriter ≠ some pid := of_decide_eq_true hg
        rintro hmem
        rcases List.mem_cons.mp hmem with rfl | hmem
        · exact hother hqw
        · exact hq hmem

end Signers

/-! ## The `/configure` requests -/

section Configure
variable {net : Network} {cfg : Config} {pid : Nat} {w w' : World} {ch : Choice}
  {params : ConfigureAccountParams}

/-- The process has no signers to write. -/
def NotWriter (pid : Nat) (w : World) : Prop := w.ghost.stateWriter ≠ some pid

/-- If the process has signers to write, the state is its request's. -/
def Stored (pid : Nat) (params : ConfigureAccountParams) (w : World) : Prop :=
  w.ghost.stateWriter = some pid → w.db.state.map (·.stateJson) = some params.initialState

theorem NotWriter.of_rely (hr : (authWrites net).rely pid w w') (h : NotWriter pid w) :
    NotWriter pid w' := fun hw => h (hr hw).1

theorem Op.promotes_of_quiet {o : Op} (h : o.quiet = true) : o.Promotes := by
  cases o with
  | write s => cases s <;> trivial
  | _ => trivial

theorem steady_notWriter (net : Network) (pid : Nat) :
    (authWrites net).Steady (machine net) undisturbedWrites pid Op.Promotes (NotWriter pid) where
  stable := NotWriter.of_rely
  own := by
    intro op ch r w w' hop hg hx hi hn
    obtain hwriter | ⟨hwrite, -⟩ | hwriter | hwriter := (exec_effect hx).2.writer_cases
    · exact fun hw => hn (hwriter ▸ hw)
    · exact absurd hop hwrite
    · exact fun hw => hn (Option.filter_eq_some_iff.mp (hwriter ▸ hw)).1
    · intro hw
      rw [hwriter] at hw
      cases hw
  ok := fun _ _ hn hw => absurd hw hn

/-- A write that did nothing, or took effect. -/
theorem exec_write_cases {s : Stmt} {r : Option s.Answer}
    (h : exec pid (.write s) ch w = some (r, w')) :
    ((ch.fault = .refused ∨ s.run w.db = none) ∧ r = none ∧ w' = w) ∨
    ∃ a db', ch.fault ≠ .refused ∧ s.run w.db = some (a, db') ∧
      r = (if ch.fault = .none then some a else none) ∧
      w' = { w with db := db', ghost := s.note pid w.chain w.db w.ghost a } := by
  unfold exec at h
  split at h
  · cases h
  simp only at h
  split at h
  · cases h
  split at h
  · next hfault =>
    cases h
    exact .inl ⟨.inl hfault, rfl, rfl⟩
  · next hrun _ =>
    cases h
    exact .inl ⟨.inr hrun, rfl, rfl⟩
  · next a db' hrun hfault =>
    cases h
    exact .inr ⟨a, db', hfault, hrun, rfl, rfl⟩

/-- A write whose answer is not lost. -/
theorem exec_write_answered {s : Stmt} {r : Option s.Answer} (hfault : ch.fault ≠ .lost)
    (h : exec pid (.write s) ch w = some (r, w')) :
    (r = none ∧ w' = w) ∨ ∃ a db', s.run w.db = some (a, db') ∧ r = some a ∧
      w' = { w with db := db', ghost := s.note pid w.chain w.db w.ghost a } := by
  rcases exec_write_cases h with ⟨-, hr, hw⟩ | ⟨a, db', hrefused, hrun, hr, hw⟩
  · exact .inl ⟨hr, hw⟩
  · have hnone : ch.fault = .none := by
      cases hch : ch.fault with
      | none => rfl
      | refused => exact absurd hch hrefused
      | lost => exact absurd hch hfault
    rw [if_pos hnone] at hr
    exact .inr ⟨a, db', hrun, hr, hw⟩

open ConfigureAccount in
/-- The state write: the request has signers to write only where the state is its
own. -/
theorem ensures_writeState {base : Option StateHead} {state : StateObject} {created : Bool}
    (hstate : state.stateJson = params.initialState) (hw : NotWriter pid w) :
    (authWrites net).Ensures (machine net) undisturbedWrites pid (writeState base state created)
      (fun _ w' => Stored pid params w') (NotWriter pid) w := by
  unfold writeState
  cases base with
  | some stored =>
    refine Rely.Ensures.bind' (Rely.Ensures.bind' (Rely.Ensures.op' fun w₁ hr _ =>
      ⟨fun h => absurd h (NotWriter.of_rely hr hw), fun ch r w₂ hg hx _ => ?_⟩))
    have hn₁ := NotWriter.of_rely hr hw
    rcases exec_write_answered (of_decide_eq_true hg) hx with ⟨rfl, rfl⟩ | ⟨a, db', hrun, rfl, rfl⟩
    · exact Rely.Ensures.throw' _ hn₁
    · cases hcur : w₁.db.state with
      | none => simp [Stmt.run, Db.replaceState, hcur] at hrun
      | some current =>
        simp only [Stmt.run, Db.replaceState, hcur] at hrun
        split at hrun
        · cases hrun
          exact Rely.Ensures.pure' (Rely.Ensures.pure' fun _ => by simp [hstate])
        · cases hrun
          exact Rely.Ensures.pure' (Rely.Ensures.throw' _ hn₁)
  | none =>
    refine Rely.Ensures.bind' (Rely.Ensures.op' fun w₁ hr _ =>
      ⟨fun h => absurd h (NotWriter.of_rely hr hw), fun ch r w₂ hg hx _ => ?_⟩)
    rcases exec_write_answered (of_decide_eq_true hg) hx with ⟨rfl, rfl⟩ | ⟨a, db', hrun, rfl, rfl⟩
    · exact Rely.Ensures.throw' _ (NotWriter.of_rely hr hw)
    · cases hrun
      exact Rely.Ensures.pure' fun _ => by simp [Db.submitState, hstate]

/-- The signers a request carries are those of its state. -/
def SignersFit (net : Network) (params : ConfigureAccountParams) : Prop :=
  net.chainCosigners params.initialState ≠ [] → params.auth.cosignerCommitments =
    (net.chainCosigners params.initialState).map (·.commitment)

theorem signersFit_of_validate
    (hauth : (net.shouldUpdateAuth params.initialState params.auth).all (· = params.auth) = true) :
    SignersFit net params := by
  intro hne
  have hsync : params.auth.withChainCosigners (net.chainCosigners params.initialState) =
      params.auth := by
    simpa [Network.shouldUpdateAuth, hne] using hauth
  rw [← Auth.cosignerCommitments_withChainCosigners params.auth, hsync]

open ConfigureAccount in
/-- The signers follow the state. -/
theorem ensures_writeAuth {m : AccountMetadata} (hfit : SignersFit net params)
    (hw : Stored pid params w) :
    (authWrites net).Ensures (machine net) undisturbedWrites pid (writeAuth params.auth (some m))
      (fun _ w' => NotWriter pid w') (NotWriter pid) w := by
  unfold writeAuth
  refine Rely.Ensures.bind' (Rely.Ensures.op' fun w₁ hr _ => ⟨fun hwriter => ?_, fun ch r w₂ hg hx _ => ?_⟩)
  · refine ⟨nofun, ?_⟩
    rintro _ ⟨⟩ s hs hlists signer
    obtain ⟨hold, hst⟩ := hr hwriter
    have hjson : s.stateJson = params.initialState := by
      have hours := hw hold
      rw [← hst, hs] at hours
      exact Option.some.inj hours
    rw [hjson] at hlists ⊢
    rw [hfit hlists]
  · obtain ⟨hfault, -⟩ := of_decide_eq_true hg
    rcases exec_write_cases hx with ⟨hrefused | hrun, -⟩ | ⟨a, db', -, -, rfl, rfl⟩
    · exact absurd hrefused hfault
    · cases hrun
    · have hdone : NotWriter pid { w₁ with
          db := db', ghost := (Stmt.setMetadata { m with auth := params.auth }).note pid w₁.chain
            w₁.db w₁.ghost a } := fun h => (noteSigners_writer h).2 rfl
      split
      · exact Rely.Ensures.pure' hdone
      · exact Rely.Ensures.throw' _ hdone

open ConfigureAccount in
/-- An account that has its metadata is not claimed again. -/
theorem ensures_claim {auth : Auth} (existing : Option AccountMetadata) (hw : NotWriter pid w) :
    (authWrites net).Ensures (machine net) undisturbedWrites pid (claim auth existing)
      (fun created w' => created = false ∧ NotWriter pid w') (NotWriter pid) w := by
  unfold claim
  split
  · exact Rely.Ensures.pure' ⟨rfl, hw⟩
  · refine Rely.Ensures.bind' (Rely.Ensures.op' fun w₁ hr hi =>
      ⟨fun h => absurd h (NotWriter.of_rely hr hw), fun ch r w₂ hg hx _ => ?_⟩)
    have hop : Op.Promotes (.write (.createMetadata ⟨auth, false, none, none⟩)) := trivial
    have hn₂ : NotWriter pid w₂ := (steady_notWriter net pid).own hop hg hx hi (NotWriter.of_rely hr hw)
    cases r with
    | none => exact Rely.Ensures.throw' _ hn₂
    | some created =>
      obtain ⟨db', hrun, _⟩ := exec_write_answer hx
      obtain ⟨m, hm⟩ := Option.isSome_iff_exists.mp hi.1
      simp only [Stmt.run, Db.createMetadata, hm, Option.some.injEq, Prod.mk.injEq] at hrun
      exact Rely.Ensures.pure' ⟨hrun.1.symm, hn₂⟩

open ConfigureAccount in
theorem returns_claimed (existing : Option AccountMetadata) :
    Returns (claimed existing false) (fun m => m.isSome = true) := by
  cases existing with
  | some m => exact Returns.pure' rfl
  | none =>
    refine Returns.bind' fun m => ?_
    split
    · exact Returns.pure' rfl
    · exact returns_fail _

open ConfigureAccount in
theorem ensures_configureAccount_signers (hw : NotWriter pid w) :
    (authWrites net).Ensures (machine net) undisturbedWrites pid (configureAccount net cfg params)
      (fun _ w' => NotWriter pid w') (NotWriter pid) w := by
  have hN := steady_notWriter net pid
  have hq : ∀ {o : Op}, o.quiet = true → o.Promotes := Op.promotes_of_quiet
  unfold configureAccount
  refine .seq hN (makes_orFail (makes_query hq _)) hw id fun existing w₁ hw₁ => ?_
  refine .seq hN (makes_unfinishedClaim hq _) hw₁ id fun unfinished w₂ hw₂ => ?_
  refine .seq hN (makes_rejectDisallowedSchemes _ _) hw₂ id fun _ w₃ hw₃ => ?_
  refine .seq_of hN makes_validate hw₃ id returns_validate fun head w₄ hvalid hw₄ => ?_
  have hfit := signersFit_of_validate hvalid.2
  refine .bind' ((ensures_claim existing hw₄).mono fun created w₅ hclaim => ?_)
  obtain ⟨rfl, hw₅⟩ := hclaim
  refine .seq_of hN (makes_claimed hq _ _) hw₅ id (returns_claimed existing)
    fun existing w₆ hsome hw₆ => ?_
  obtain ⟨m, rfl⟩ := Option.isSome_iff_exists.mp hsome
  refine .seq hN (makes_flag hq) hw₆ id fun late w₇ hw₇ => ?_
  split
  · exact .throw' _ hw₇
  refine .seq hN (makes_storedBaseOf hq _) hw₇ id fun base w₈ hw₈ => ?_
  refine .seq hN (makes_ensureVouched hq _ _ _ _) hw₈ id fun _ w₉ hw₉ => ?_
  refine .seq hN (makes_ensureNotOlder hq _ _) hw₉ id fun _ w₁₀ hw₁₀ => ?_
  refine .bind' ((ensures_writeState rfl hw₁₀).mono fun _ w₁₁ hw₁₁ => ?_)
  refine .bind' ((ensures_writeAuth hfit hw₁₁).mono fun _ w₁₂ hw₁₂ => ?_)
  exact .frame hN (makes_clearRelease hq _ _ _) hw₁₂ id

/-- A request that has just started has not written. -/
theorem body_signers (req : Request) (hw : NotWriter pid w) :
    (authWrites net).wp (machine net) undisturbedWrites pid (body net cfg req) (fun _ _ => True) w := by
  by_cases hreq : req.isConfigure = true
  · cases req with
    | configure params =>
      refine Rely.wp_bind (Rely.wp_mono (ensures_configureAccount_signers hw)
        fun r w' hr w₁ hrely _ => ⟨fun hwriter => ?_, fun _ _ _ _ _ _ => trivial⟩)
      have hdone : NotWriter pid w' := by cases r <;> exact hr
      exact absurd hwriter (hdone.of_rely hrely)
    | _ => cases hreq
  · refine Rely.wp_mono (Rely.wp_frame (steady_notWriter net pid) (body_promotes ?_) Prog.Results.trivial hw)
      fun _ _ _ => trivial
    simpa using hreq

end Configure

/-- Only a `/configure` writes a state that is not promoted. -/
theorem Reachable.configure_of_write {net : Network} {cfg : Config} {G : RunGuard} {w₀ : World}
    {c : SystemConf} (h : Reachable net cfg G w₀ c) {pid : Nat} {req : Request} {op : Op}
    {k : Res op → GProg Unit} (hp : c.procs pid = some (req, .call op k)) (hop : ¬op.Promotes) :
    ∃ params, req = .configure params := by
  have hrest := h.rest (Z := fun (req : Request) (p : GProg Unit) =>
      req.isConfigure = false → p.Calls Op.Promotes) (fun hz r hreq => (hz hreq).2 r)
    (fun req _ _ hreq => body_promotes hreq) hp
  cases req with
  | configure params => exact ⟨params, rfl⟩
  | _ => exact absurd (hrest rfl).1 hop

/-- Only a `/configure` is noted as the writer of the state. -/
theorem Reachable.writer {net : Network} {cfg : Config} {G : RunGuard} {w₀ : World}
    (hfresh : w₀.Fresh net) {c : SystemConf} (h : Reachable net cfg G w₀ c) {pid : Nat}
    (hw : c.world.ghost.stateWriter = some pid) :
    ∃ params p, c.procs pid = some (.configure params, p) := by
  induction h with
  | init =>
    have hnone : w₀.ghost.stateWriter = none := by rw [hfresh.ghost]; rfl
    cases hnone.symm.trans hw
  | @step c c' e hr hs ih =>
    obtain ⟨q, req, hnone, _, rfl⟩ | ⟨q, ch, req, op, k, r, w, hp, _, hx, rfl⟩ |
      ⟨a, w, _, hact, rfl⟩ := step_cases hs
    · obtain ⟨params, p, hproc⟩ := ih hw
      refine ⟨params, p, ?_⟩
      have hne : pid ≠ q := fun heq => by rw [heq, hnone] at hproc; cases hproc
      simpa [Conf.setProc, Function.update_of_ne hne] using hproc
    · have hkeeps : c.world.ghost.stateWriter = some pid →
          ∃ params p, (Conf.setProc { c with world := w } q req (k r)).procs pid =
            some (.configure params, p) := by
        intro hold
        obtain ⟨params, p, hproc⟩ := ih hold
        by_cases hq : pid = q
        · subst hq
          rw [hp] at hproc
          cases hproc
          exact ⟨params, k r, by simp [Conf.setProc]⟩
        · exact ⟨params, p, by simpa [Conf.setProc, Function.update_of_ne hq] using hproc⟩
      obtain hwriter | ⟨hwrite, hwriter⟩ | hwriter | hwriter := (exec_effect hx).2.writer_cases
      · exact hkeeps (hwriter ▸ hw)
      · obtain rfl : q = pid := Option.some.inj (hwriter ▸ hw)
        obtain ⟨params, rfl⟩ := Reachable.configure_of_write hr hp hwrite
        exact ⟨params, k r, by simp [Conf.setProc]⟩
      · exact hkeeps (Option.filter_eq_some_iff.mp (hwriter ▸ hw)).1
      · cases hwriter.symm.trans hw
    · have hsame : w.ghost.stateWriter = c.world.ghost.stateWriter := by
        cases act_effect hact <;> rfl
      exact ih (hsame ▸ hw)

/-- In every run of a configured account in which no other state is written between
the state and the signers of a `/configure`, and none is cut short there, the signer
set in force is the stored state's whenever no `/configure` is under way. -/
theorem auth_matches_state (net : Network) (law : net.Coherent) (cfg : Config) (w₀ : World)
    (hfresh : w₀.Fresh net) (hconfigured : w₀.db.metadata.isSome = true)
    (hmatches : w₀.AuthMatches net) (c : SystemConf)
    (h : Reachable net cfg undisturbedWrites w₀ c)
    (hidle : ∀ pid params p, c.procs pid = some (.configure params, p) → pid ∈ c.world.finished) :
    c.world.AuthMatches net := by
  have hinv := (Rely.reach (authWrites_kept cfg law)
    (fun hr hp => hr.calls (fun req _ _ => body_calls net cfg req) hp)
    ⟨hconfigured, .inl hmatches⟩
    (fun {c pid req} hr hnone _ _ => body_signers req fun hw => by
      obtain ⟨_, _, hproc⟩ := Reachable.writer hfresh hr hw
      rw [hnone] at hproc
      cases hproc) h).1
  rcases hinv.2 with hmatch | ⟨pid, hlive, hwriter⟩
  · exact hmatch
  · obtain ⟨params, p, hproc⟩ := Reachable.writer hfresh h hwriter
    exact absurd (hidle pid params p hproc) hlive

/-! ## Runs -/

/-- The processes events start for a `/configure`. -/
def Demo.configures (events : List (Event Request Choice Act)) : List Nat :=
  events.filterMap (fun e => match e with
    | .spawn pid (.configure _) => some pid
    | _ => none)

theorem Demo.idle_after {G : RunGuard} {w₀ : World} {events : List (Event Request Choice Act)}
    {c : SystemConf} {pid : Nat} (h : Demo.after 0 G w₀ events = some c)
    (hone : Demo.configures events = [pid]) (hfinished : pid ∈ c.world.finished) :
    ∀ pid params p, c.procs pid = some (.configure params, p) → pid ∈ c.world.finished := by
  intro q params p hq
  rcases spawned_of_runEvents h hq with ⟨_, hstart⟩ | hmem
  · cases hstart
  · have hin : q ∈ Demo.configures events := List.mem_filterMap.mpr ⟨_, hmem, rfl⟩
    rw [hone, List.mem_singleton] at hin
    rw [hin]
    exact hfinished

theorem Demo.world_authMatches : (Demo.world 0).AuthMatches (.letters 0) := by
  intro m hm s hs _ signer
  cases hs
  cases hm
  exact Iff.rfl

/-- A request to re-onboard at the state that is stored. -/
def Demo.reonboard : Request := .configure ⟨"s", .midenFalconRpo ["old"], "old"⟩

/-- A push of the letter that rotates the signer's key lands and is promoted. -/
def Demo.rotates : List (Event Request Choice Act) :=
  .spawn 1 (.push (Demo.delta 1 "s" "k")) :: Demo.calls 1 9 1 ++
    .env (.mine [⟨"s", "k", none⟩]) :: Demo.acquires 2 "a" ++
    .spawn 3 (.fullPass (Demo.fence "a" 0)) :: Demo.calls 3 13 2

/-- The state that is stored, and the signers in force. -/
def Demo.inForce (c : SystemConf) : Option (StateJson × List String) :=
  c.world.db.state.bind (fun s => c.world.db.metadata.map (fun m =>
    (s.stateJson, m.auth.cosignerCommitments)))

/-- A re-onboarding, and then a rotation of the signer's key. -/
theorem auth_matches_state_rotated :
    ∃ c, Reachable (.letters 0) Demo.config undisturbedWrites (Demo.world 0) c ∧
      Demo.inForce c = some ("sk", ["new"]) ∧
      (∀ pid params p, c.procs pid = some (.configure params, p) → pid ∈ c.world.finished) ∧
      c.world.AuthMatches (.letters 0) := by
  have hrun : (Demo.after 0 undisturbedWrites (Demo.world 0)
      (.spawn 0 Demo.reonboard :: Demo.calls 0 8 1 ++ Demo.rotates)).any (fun c : SystemConf =>
        decide (Demo.inForce c = some ("sk", ["new"])) && decide (0 ∈ c.world.finished)) = true := by
    decide +kernel
  obtain ⟨c, hc, htest⟩ := (Option.any_eq_true ..).mp hrun
  obtain ⟨hforce, hfinished⟩ := Bool.and_eq_true_iff.mp htest
  have hreach : Reachable (.letters 0) Demo.config undisturbedWrites (Demo.world 0) c :=
    Reach.init.runEvents hc
  have hidle := Demo.idle_after hc rfl (of_decide_eq_true hfinished)
  exact ⟨c, hreach, of_decide_eq_true hforce, hidle, auth_matches_state _
    (Network.lettersLawful 0).toCoherent Demo.config _ (Demo.fresh_world 0) rfl
    Demo.world_authMatches c hreach hidle⟩

/-- A re-onboarding writes its state; the signer's key is rotated; and the
re-onboarding writes the signers it was given. -/
theorem configure_restores_old_signers :
    ¬∀ c, Reachable (.letters 0) Demo.config .any (Demo.world 0) c →
      (∀ pid params p, c.procs pid = some (.configure params, p) → pid ∈ c.world.finished) →
      c.world.AuthMatches (.letters 0) := by
  intro hall
  have hrun : (Demo.after 0 .any (Demo.world 0) (.spawn 0 Demo.reonboard :: Demo.calls 0 5 1 ++
      Demo.rotates ++ Demo.calls 0 3 2)).any (fun c : SystemConf =>
        decide (Demo.inForce c = some ("sk", ["old"])) && decide (0 ∈ c.world.finished)) = true := by
    decide +kernel
  obtain ⟨c, hc, htest⟩ := (Option.any_eq_true ..).mp hrun
  obtain ⟨hforce, hfinished⟩ := Bool.and_eq_true_iff.mp htest
  have hmatches := hall c (Reach.init.runEvents hc)
    (Demo.idle_after hc rfl (of_decide_eq_true hfinished))
  obtain ⟨s, hs, hforce⟩ := Option.bind_eq_some_iff.mp (of_decide_eq_true hforce)
  obtain ⟨m, hm, heq⟩ := Option.map_eq_some_iff.mp hforce
  obtain ⟨hsk, hsigners⟩ := Prod.mk.inj heq
  have hold : "old" ∈ m.auth.cosignerCommitments := by
    rw [hsigners]
    exact List.mem_cons_self
  have hin := (hmatches m hm s hs (List.cons_ne_nil _ _) "old").mp hold
  rw [hsk] at hin
  revert hin
  decide

end Guardian
