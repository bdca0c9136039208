import Guardian.Safety.OnChain

/- The stored state moves along the chain only: a promotion leads one step on
   from what is stored, and a `/configure` replaces what is stored by what the
   chain's head was after it read the base.

   A `/configure` that read no base writes without a condition. It read none
   because it claimed the account, or found the claim of another request without
   a state; in both cases a second one may have stored a state, and promotions
   may have moved it, before the first one gets to its write:
   `first_configure_rolls_back`. -/
namespace Guardian

open Interleaving Relation

/-- `p` is a strictly earlier position of the account than `q`. -/
def Chain.Before (chain : Chain) (p q : Commitment) : Prop :=
  ∃ newer between older, chain.history = newer ++ q :: between ++ p :: older

/-- A `/configure` that needs the chain's vouch reads the head. -/
def Op.vouchesAtHead (ch : Choice) (w : World) : Op → Bool
  | .node n => !n.vouchesStale w.chain ch
  | _ => true

/-- A `submit_state` finds no stored state. -/
def Op.submitsFirst (w : World) : Op → Bool
  | .write (.submitState ..) => w.db.state.isNone
  | _ => true

/-- Runs in which every vouch reads the head. -/
def vouchedRuns : RunGuard where
  spawn := fun _ _ => true
  call := fun _ op ch w => op.vouchesAtHead ch w
  act := fun _ _ => true

/-- Such runs in which every pushed nonce is ordered by the column and no
`submit_state` finds a stored state. -/
def firstStateRuns : RunGuard where
  spawn := fun req _ => req.isNarrow
  call := fun _ op ch w => op.vouchesAtHead ch w && op.submitsFirst w
  act := fun _ _ => true

/-- A state that passes for a first one is the account's first position. -/
def Network.FirstIs (net : Network) (first : Commitment) : Prop :=
  ∀ s c, net.IsState s c → net.validateFirstState s = true → c = first

section Steps
variable {net : Network} {cfg : Config} {pid : Nat} {op : Op} {w w' : World} {ch : Choice}

/-- A vouch that reads the head is not stale. -/
theorem stale_of_vouchesAtHead {r : Res op} (hx : exec pid op ch w = some (r, w'))
    (hv : op.vouchesAtHead ch w = true) (hw : w.ghost.staleVouch = false) :
    w'.ghost.staleVouch = false := by
  have heff := (exec_effect hx).2
  cases op with
  | node n =>
    unfold exec at hx
    split at hx
    · cases hx
    simp only at hx
    split at hx
    · cases hx
      have hfresh : n.vouchesStale w.chain ch = false := by simpa [Op.vouchesAtHead] using hv
      exact Bool.or_eq_false_iff.mpr ⟨hw, hfresh⟩
    · cases hx
  | _ =>
    cases heff <;> exact hw

/-- Nothing leads off the chain or back along it. -/
structure World.Ahead (first : Commitment) (w : World) : Prop where
  straight : w.Straight
  vouched : w.ghost.staleVouch = false
  first : w.chain.first = first

theorem World.Ahead.of_exec {first : Commitment} (hfirst : net.FirstIs first) {r : Res op}
    (hx : exec pid op ch w = some (r, w')) (hfits : op.Fits net cfg) (hok : LandingOk net w op)
    (hop : op.Narrow) (hv : op.vouchesAtHead ch w = true) (hw : w.Ahead first) :
    w'.Ahead first := by
  have heff := (exec_effect hx).2
  refine ⟨heff.straight hok hop (fun {state created} heq => ?_) hw.straight,
    stale_of_vouchesAtHead hx hv hw.vouched, heff.chain_eq ▸ hw.first⟩
  subst heq
  rcases hok with ⟨_, hvalid⟩ | hmem
  · rw [hfirst _ _ hfits hvalid, ← hw.first]
    exact List.mem_append_right _ List.mem_cons_self
  · exact hmem

theorem World.Ahead.of_act {first : Commitment} (h : ActEffect net w w') (hw : w.Ahead first) :
    w'.Ahead first := by
  refine ⟨h.straight hw.straight, ?_, ?_⟩
  · cases h <;> exact hw.vouched
  · cases h <;> exact hw.first

/-- A promotion leads on from what is stored. -/
theorem Db.Promoted.leads_on {p : CandidatePromotion} {db db' : Db} (h : Db.Promoted p db db')
    (hstep : net.Step p.delta.prevCommitment p.state.commitment) {s : StateObject}
    (hs : db.state = some s) : ReflTransGen net.Step s.commitment p.state.commitment := by
  obtain ⟨base, hbase, hprev | hnew⟩ := h.base
  · rw [hbase] at hs
    cases hs
    exact hprev ▸ .single hstep
  · rw [hbase] at hs
    cases hs
    exact hnew ▸ .refl

/-- A write that is made sure of leads on from what is stored. -/
theorem leads_on {s : StateObject} (heff : Effect pid w op w') (hok : LandingOk net w op)
    (hsubmit : op.submitsFirst w = true) (hw : w.Straight) (hv : w.ghost.staleVouch = false)
    (hs : w.db.state = some s) :
    ∃ s', w'.db.state = some s' ∧ ReflTransGen net.Step s.commitment s'.commitment := by
  rcases heff.state_cases with ⟨heq, _⟩ | ⟨state, hwrite, heq, _⟩
  · exact ⟨s, heq.trans hs, .refl⟩
  · refine ⟨state.asStored, heq, ?_⟩
    rw [StateObject.asStored_commitment]
    cases hwrite with
    | submitted =>
      rw [Op.submitsFirst, hs] at hsubmit
      cases hsubmit
    | replaced hcurrent =>
      rw [hcurrent] at hs
      cases hs
      rcases (hok.resolve_left hw.not_astray).2 with hstale | hleads
      · rw [hv] at hstale
        cases hstale
      · exact hleads
    | promoted hp => exact hp.leads_on hok.2.1 hs

end Steps

/-- Where the account goes on, it does not go back. -/
theorem Chain.Sound.not_before {net : Network} (law : net.Lawful) (one : net.OneLineage)
    {chain : Chain} (hc : chain.Sound net) {p q : Commitment} (hleads : ReflTransGen net.Step q p) :
    ¬chain.Before p q := by
  rintro ⟨newer, between, older, heq⟩
  have hsteps := hc.steps
  rw [heq, List.append_assoc] at hsteps
  have htail : (Network.lineage law one).History (q :: (between ++ p :: older)) :=
    hsteps.right_of_append
  cases hb : between ++ p :: older with
  | nil => simp at hb
  | cons x rest =>
    rw [hb] at htail
    obtain ⟨hstep, hrest⟩ := List.isChain_cons_cons.mp htail
    have hp : p ∈ x :: rest := hb ▸ List.mem_append_right _ List.mem_cons_self
    -- `p` leads to `x`, one step before `q`, which leads back to `p`
    have hle : law.rank p ≤ law.rank x :=
      Lineage.Reaches.rank_le (L := Network.lineage law one) (Lineage.History.reaches_head hrest hp)
    have hlt : law.rank x < law.rank q := law.rank_lt hstep
    have hback : law.rank q ≤ law.rank p :=
      Lineage.Reaches.rank_le (L := Network.lineage law one) hleads
    omega

/-- In every run whose vouches read the head, whose pushed nonces are below
`2^63`, and in which no `submit_state` finds a stored state, the stored
commitment is never a strictly earlier position than it was. -/
theorem stored_state_never_rolls_back (net : Network) (law : net.Lawful) (one : net.OneLineage)
    (cfg : Config) (w₀ : World) (hfresh : w₀.Fresh net) (hfirst : net.FirstIs w₀.chain.first)
    (c c' : SystemConf) (events : List (Event Request Choice Act))
    (h : Reachable net cfg firstStateRuns w₀ c)
    (hrun : runEvents (machine net) (body net cfg) firstStateRuns c events = some c')
    (s s' : StateObject) (hs : c.world.db.state = some s) (hs' : c'.world.db.state = some s') :
    ¬c'.world.chain.Before s'.commitment s.commitment := by
  have hcall : ∀ {c : SystemConf} {pid req op k}, Reachable net cfg firstStateRuns w₀ c →
      c.procs pid = some (req, .call op k) →
      op.Fits net cfg ∧ LandingOk net c.world op ∧ op.Narrow := by
    intro c pid req op k hr hp
    obtain ⟨hfits, _, hok⟩ := Reachable.landing law one hfresh hr hp
    exact ⟨hfits, hok, hr.calls (fun req w hg => body_narrow hg) hp⟩
  have hahead : ∀ {c : SystemConf}, Reachable net cfg firstStateRuns w₀ c →
      c.world.Ahead w₀.chain.first := by
    intro c hr
    refine Reach.induct (K := fun _ op w => op.Fits net cfg ∧ LandingOk net w op ∧ op.Narrow)
      (I := World.Ahead w₀.chain.first) hcall ?_ (fun hk hg hx hi => ?_)
      (fun _ hact hi => hi.of_act (act_effect hact)) hr
    · exact ⟨hfresh.straight, by rw [hfresh.ghost]; rfl, rfl⟩
    · exact hi.of_exec hfirst hx hk.1 hk.2.1 hk.2.2 (Bool.and_eq_true_iff.mp hg).1
  -- along the run, what is stored leads on from `s`
  have hleads : ∃ t, c'.world.db.state = some t ∧
      ReflTransGen net.Step s.commitment t.commitment := by
    refine Reach.along (P := fun w => ∃ t, w.db.state = some t ∧
      ReflTransGen net.Step s.commitment t.commitment) (fun hr hp hg hx hi => ?_)
      (fun _ hact hi => ?_) h ⟨s, hs, .refl⟩ hrun
    · obtain ⟨t, ht, hst⟩ := hi
      obtain ⟨t', ht', hon⟩ := leads_on (exec_effect hx).2 (hcall hr hp).2.1
        (Bool.and_eq_true_iff.mp hg).2 (hahead hr).straight (hahead hr).vouched ht
      exact ⟨t', ht', hst.trans hon⟩
    · rw [(act_effect hact).db]
      exact hi
  obtain ⟨t, ht, hst⟩ := hleads
  rw [ht] at hs'
  cases hs'
  have hreach : Reachable net cfg firstStateRuns w₀ c' := h.runEvents hrun
  exact (Reachable.landingInv law one hfresh hreach).chain.not_before law one hst

/-! ## Two first configurations -/

theorem Demo.letters_firstIs : (Network.letters 0).FirstIs "s" := by
  intro s c hs hfirst
  have heq : s = "s" := by simpa [Network.letters] using hfirst
  rw [(Network.letters_isState.mp hs).1, heq]

/-- A request to configure the account at its first state. -/
def Demo.configure : Request := .configure ⟨"s", .midenFalconRpo ["old"], "old"⟩

/-- A push of `t` lands and is promoted. -/
def Demo.promotes : List (Event Request Choice Act) :=
  .spawn 10 (.push (Demo.delta 1 "s" "t")) :: Demo.calls 10 9 1 ++
    .env (.mine [⟨"s", "t", none⟩]) :: Demo.acquires 11 "a" ++
    .spawn 12 (.fullPass (Demo.fence "a" 0)) :: Demo.calls 12 13 2

/-- The stored commitment is `stored`, and the account has had `history`. -/
def Demo.storesAt (stored : Commitment) (history : List Commitment) (c : SystemConf) : Bool :=
  decide (c.world.db.state.map (·.commitment) = some stored ∧ c.world.chain.history = history)

/-- What is stored when a run pauses, and when it has gone on. -/
theorem Demo.stores_then (G : RunGuard) (w₀ : World) {before rest : List (Event Request Choice Act)}
    {p q : Commitment} {history history' : List Commitment}
    (h : (Demo.after 0 G w₀ before).any (fun c : SystemConf => Demo.storesAt p history c &&
      (runEvents (machine (.letters 0)) (body (.letters 0) Demo.config) G c rest).any
        (Demo.storesAt q history')) = true) :
    ∃ c c' s s', Reachable (.letters 0) Demo.config G w₀ c ∧
      runEvents (machine (.letters 0)) (body (.letters 0) Demo.config) G c rest = some c' ∧
      c.world.db.state = some s ∧ c'.world.db.state = some s' ∧ s.commitment = p ∧
      s'.commitment = q ∧ c'.world.chain.history = history' := by
  obtain ⟨c, hc, htest⟩ := Demo.reachable_after 0 G w₀ before _ h
  obtain ⟨hp, hrest⟩ := Bool.and_eq_true_iff.mp htest
  obtain ⟨c', hc', hq⟩ := (Option.any_eq_true ..).mp hrest
  have hp := of_decide_eq_true hp
  have hq := of_decide_eq_true hq
  obtain ⟨s, hs, hsp⟩ := Option.map_eq_some_iff.mp hp.1
  obtain ⟨s', hs', hsq⟩ := Option.map_eq_some_iff.mp hq.1
  exact ⟨c, c', s, s', hc, hc', hs, hs', hsp, hsq, hq.2⟩

/-- An account that is configured and then moves. -/
theorem stored_state_never_rolls_back_promoted :
    ∃ c c' s s', Reachable (.letters 0) Demo.config firstStateRuns Demo.unconfigured c ∧
      runEvents (machine (.letters 0)) (body (.letters 0) Demo.config) firstStateRuns c
        Demo.promotes = some c' ∧
      c.world.db.state = some s ∧ c'.world.db.state = some s' ∧ s.commitment = "s" ∧
      s'.commitment = "st" ∧ ¬c'.world.chain.Before s'.commitment s.commitment := by
  obtain ⟨c, c', s, s', hc, hc', hs, hs', hp, hq, _⟩ := Demo.stores_then firstStateRuns
    Demo.unconfigured (p := "s") (q := "st")
    (show (Demo.after 0 firstStateRuns Demo.unconfigured
      (.spawn 0 Demo.configure :: Demo.calls 0 5 1)).any (fun c : SystemConf =>
        Demo.storesAt "s" ["s"] c && (runEvents (machine (.letters 0))
          (body (.letters 0) Demo.config) firstStateRuns c Demo.promotes).any
            (Demo.storesAt "st" ["st", "s"])) = true by decide +kernel)
  exact ⟨c, c', s, s', hc, hc', hs, hs', hp, hq, stored_state_never_rolls_back _
    (Network.lettersLawful 0) Network.letters_oneLineage Demo.config _ Demo.fresh_unconfigured
    Demo.letters_firstIs c c' _ hc hc' s s' hs hs'⟩

/-- A request claims the account and stalls before its state; a second one finds
the claim unfinished and stores the first state; a push lands and is promoted;
and the first request goes on. -/
theorem first_configure_rolls_back :
    ¬∀ c c' events s s',
      Reachable (.letters 0) Demo.config vouchedRuns Demo.unconfigured c →
      runEvents (machine (.letters 0)) (body (.letters 0) Demo.config) vouchedRuns c events =
        some c' →
      c.world.db.state = some s → c'.world.db.state = some s' →
      ¬c'.world.chain.Before s'.commitment s.commitment := by
  intro hall
  obtain ⟨c, c', s, s', hc, hc', hs, hs', hp, hq, hhist⟩ := Demo.stores_then vouchedRuns
    Demo.unconfigured (p := "st") (q := "s")
    (show (Demo.after 0 vouchedRuns Demo.unconfigured
      (.spawn 0 Demo.configure :: Demo.calls 0 3 1 ++ .spawn 1 Demo.configure ::
        Demo.calls 1 8 1 ++ Demo.promotes)).any (fun c : SystemConf =>
        Demo.storesAt "st" ["st", "s"] c && (runEvents (machine (.letters 0))
          (body (.letters 0) Demo.config) vouchedRuns c (Demo.calls 0 1 1)).any
            (Demo.storesAt "s" ["st", "s"])) = true by decide +kernel)
  refine hall c c' _ s s' hc hc' hs hs' ⟨[], [], [], ?_⟩
  rw [hhist, hp, hq]
  rfl

end Guardian
