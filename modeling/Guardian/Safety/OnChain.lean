import Guardian.Safety.LandingCalls

/- The stored commitment is on chain, as long as every pushed nonce is one the
   `BIGINT` column orders as the `u64` it is.

   With a larger one it is not. `push_delta` and the gate compare nonces as
   `u64`s, and the pass reads the queue in the order of the column, where a
   nonce of `2^63` or more comes before every smaller one. A candidate then
   precedes the one it descends from, and the pass takes the ancestor on chain
   for a successor that has landed: `canonical_leaves_chain`. -/
namespace Guardian

open Interleaving

/-- Every nonce a client pushes is one the column orders. -/
def Request.isNarrow : Request → Bool
  | .push delta => decide (delta.nonce.toNat < 2^63)
  | _ => true

/-- The clients and passes of a configured account: no `/configure` and no
execution. -/
def Request.isQueueing : Request → Bool
  | .configure _ | .execute _ | .reconcileExecutions .. | .heartbeat .. => false
  | _ => true

/-- Runs of clients and passes. -/
def queueingRuns : RunGuard where
  spawn := fun req _ => req.isQueueing
  call := fun _ _ _ _ => true
  act := fun _ _ => true

/-- Runs without a `/configure` in which every pushed nonce is ordered by the
column. -/
def narrowRuns : RunGuard where
  spawn := fun req _ => req.isNarrow && !req.isConfigure
  call := fun _ _ _ _ => true
  act := fun _ _ => true

/-- The call queues no nonce the column does not order. -/
def Op.Narrow : Op → Prop
  | .write (.submitCandidate delta _ _) => delta.nonce.toNat < 2^63
  | _ => True

/-- The call is not the state write of a `/configure`. -/
def Op.Promotes : Op → Prop
  | .write (.submitState ..) | .write (.replaceState ..) => False
  | _ => True

section Calls
variable {net : Network} {cfg : Config} {req : Request}

/-- `P` holds of every call of a request, as far as pushes and `/configure` go. -/
theorem body_calls_of {P : Op → Prop}
    (hrest : ∀ {o : Op}, o.Narrow → o.Promotes → P o)
    (hsubmit : ∀ {d delta now}, req = .push d → delta.nonce = d.nonce →
      P (.write (.submitCandidate delta now cfg.candidatePolicy)))
    (hstate : req.isConfigure = true → StatesFit net P) : (body net cfg req).Calls P := by
  have hq : ∀ {o : Op}, o.quiet = true → P o := by
    intro o ho
    refine hrest ?_ ?_
    · cases o with
      | write s => cases s <;> trivial
      | _ => trivial
    · cases o with
      | write s => cases s <;> trivial
      | _ => trivial
  exact body_calls_of_fit ⟨hq, fun hreq hn _ => hsubmit hreq hn, hstate, hrest trivial trivial,
      hrest trivial trivial, fun _ _ _ _ => hrest trivial trivial, fun _ _ _ _ => hrest trivial trivial,
      fun _ _ _ => hrest trivial trivial, fun _ _ _ => hrest trivial trivial,
      fun _ _ _ _ => hrest trivial trivial⟩
    (fun _ _ => hrest trivial trivial)
    (fun _ => ⟨fun _ _ => hrest trivial trivial, fun _ _ => hrest trivial trivial⟩)
    (hrest trivial trivial) (hrest trivial trivial)

/-- A request with an ordered nonce queues an ordered nonce. -/
theorem body_narrow (h : req.isNarrow = true) : (body net cfg req).Calls Op.Narrow := by
  refine body_calls_of (fun ho _ => ho) (fun {d delta _} hreq hn => ?_) fun _ {_} _ =>
    ⟨trivial, trivial⟩
  subst hreq
  have hd : d.nonce.toNat < 2^63 := of_decide_eq_true h
  show delta.nonce.toNat < 2^63
  rw [hn]
  exact hd

/-- Only a `/configure` writes a state that is not promoted. -/
theorem body_promotes (h : req.isConfigure = false) : (body net cfg req).Calls Op.Promotes :=
  body_calls_of (fun _ ho => ho) (fun _ _ => trivial) fun hc => by rw [h] at hc; cases hc

end Calls

/-- Ordered nonces keep every queued nonce ordered. -/
theorem Effect.wide_kept {pid : Nat} {op : Op} {w w' : World} (h : Effect pid w op w')
    (hop : op.Narrow) (hw : w.ghost.wideNonce = false) : w'.ghost.wideNonce = false := by
  have hnarrow : ∀ {n : Nonce}, n.toNat < 2^63 → decide (2^63 ≤ n.toNat) = false := fun hn =>
    decide_eq_false (not_le.mpr hn)
  cases h with
  | submitted h => exact Bool.or_eq_false_iff.mpr ⟨hw, hnarrow hop⟩
  | @admitted a _ h =>
    refine Bool.or_eq_false_iff.mpr ⟨hw, hnarrow ?_⟩
    -- an admission refuses a nonce with a negative column
    have hcol := h.narrow
    unfold nonceColumn at hcol
    rw [BitVec.toInt_eq_toNat_cond] at hcol
    split at hcol
    · omega
    · have := a.delta.nonce.isLt
      omega
  | _ => exact hw

/-- Nothing went wrong that leads off the chain. -/
structure World.Straight (w : World) : Prop where
  narrow : w.ghost.wideNonce = false
  onChain : w.ghost.offChainStored = false

theorem World.Straight.not_astray {w : World} (hw : w.Straight) : ¬w.Astray := by
  rintro (h | h)
  · rw [hw.narrow] at h
    cases h
  · rw [hw.onChain] at h
    cases h

/-- A call that queues no wide nonce leads off the chain by a `submit_state`
only. -/
theorem Effect.straight {net : Network} {pid : Nat} {op : Op} {w w' : World}
    (h : Effect pid w op w') (hok : LandingOk net w op) (hop : op.Narrow)
    (hfirst : ∀ {state created}, op = .write (.submitState state created) →
      state.commitment ∈ w.chain.history) (hw : w.Straight) : w'.Straight := by
  refine ⟨h.wide_kept hop hw.narrow, ?_⟩
  rcases h.state_cases with ⟨_, _, heq⟩ | ⟨state, hwrite, _, _, heq⟩
  · exact heq ▸ hw.onChain
  · have hmem : state.commitment ∈ w.chain.history := by
      cases hwrite with
      | submitted => exact hfirst rfl
      | replaced => exact (hok.resolve_left hw.not_astray).1
      | promoted => exact hok.2.2.resolve_left hw.not_astray
    rw [heq, hw.onChain]
    simpa using hmem

theorem ActEffect.straight {net : Network} {w w' : World} (h : ActEffect net w w')
    (hw : w.Straight) : w'.Straight := by
  cases h <;> exact ⟨hw.narrow, hw.onChain⟩

theorem World.Fresh.straight {net : Network} {w : World} (h : w.Fresh net) : w.Straight := by
  constructor <;> rw [h.ghost] <;> rfl

/-- In every run of clients, passes and executions in which every pushed nonce is
below `2^63`, the stored commitment is one the account has had on chain. -/
theorem canonical_is_on_chain (net : Network) (law : net.Lawful) (one : net.OneLineage)
    (cfg : Config) (w₀ : World) (hfresh : w₀.Fresh net) (c : SystemConf)
    (h : Reachable net cfg narrowRuns w₀ c) (s : StateObject) (hs : c.world.db.state = some s) :
    s.commitment ∈ c.world.chain.history := by
  have hinv := Reachable.landingInv law one hfresh h
  have hstraight : c.world.Straight := by
    refine Reach.induct (K := fun _ op w => LandingOk net w op ∧ op.Narrow ∧ op.Promotes)
      (I := World.Straight) (fun {c pid req op k} hr hp => ?_) hfresh.straight
      (fun hk _ hx hi => ?_) (fun _ hact hi => (act_effect hact).straight hi) h
    · refine ⟨(Reachable.landing law one hfresh hr hp).2.2, ?_, ?_⟩
      · refine hr.calls (fun req w hg => body_narrow ?_) hp
        exact (Bool.and_eq_true_iff.mp hg).1
      · refine hr.calls (fun req w hg => body_promotes ?_) hp
        simpa using (Bool.and_eq_true_iff.mp hg).2
    · obtain ⟨hok, hnarrow, hprom⟩ := hk
      refine (exec_effect hx).2.straight hok hnarrow (fun heq => ?_) hi
      subst heq
      exact hprom.elim
  exact hinv.stored hstraight.onChain (hinv.state hs).2

/-- A push that lands and is promoted. -/
theorem canonical_is_on_chain_promoted :
    ∃ c, Reachable (.letters 0) Demo.config narrowRuns (Demo.world 0) c ∧
      ∃ s, c.world.db.state = some s ∧ s.commitment = "st" ∧
        s.commitment ∈ c.world.chain.history := by
  obtain ⟨c, hc, htest⟩ := Demo.reachable_after 0 narrowRuns (Demo.world 0)
    (Demo.pushed ++ [.env (.mine [⟨"s", "t", none⟩])] ++ Demo.acquires 2 "a" ++
      .spawn 3 (.fullPass (Demo.fence "a" 0)) :: Demo.calls 3 13 2)
    (fun c : SystemConf => c.world.db.state.any (·.commitment == "st")) (by decide +kernel)
  obtain ⟨s, hs, hst⟩ := (Option.any_eq_true ..).mp htest
  exact ⟨c, hc, s, hs, by simpa using hst, canonical_is_on_chain _ (Network.lettersLawful 0)
    Network.letters_oneLineage Demo.config _ (Demo.fresh_world 0) c hc s hs⟩

/-- The account is two transactions before nonce `2^63`. The first is pushed,
lands, and is verified by holder `a`, which stalls in its transaction; the
second is pushed behind it and never sent; `b` takes the lease over and reads
both, the second first. -/
def Demo.reordered : List (Event Request Choice Act) :=
  .spawn 0 (.push (Demo.delta (2^63 - 1) "s" "t")) :: Demo.calls 0 9 1 ++
    .env (.mine [⟨"s", "t", none⟩]) :: Demo.acquires 1 "a" ++
    .spawn 2 (.fullPass (Demo.fence "a" 0)) :: Demo.calls 2 11 2 ++
    .spawn 3 (.push (Demo.delta (2^63) "st" "w")) :: Demo.calls 3 9 2 ++ Demo.calls 2 1 2 ++
    .env (.tick 40) :: Demo.acquires 4 "b" ++
    .spawn 5 (.fullPass (Demo.fence "b" 1)) :: Demo.calls 5 4 2 ++ Demo.calls 2 1 2 ++
    Demo.calls 5 9 2

theorem canonical_leaves_chain :
    ¬∀ c, Reachable (.letters (2^63 - 2)) Demo.config queueingRuns (Demo.world (2^63 - 2)) c →
      ∀ s, c.world.db.state = some s → s.commitment ∈ c.world.chain.history := by
  intro hall
  obtain ⟨c, hc, htest⟩ := Demo.reachable_after (2^63 - 2) queueingRuns (Demo.world (2^63 - 2))
    Demo.reordered (fun c : SystemConf => c.world.db.state.any (fun s =>
      decide (s.commitment ∉ c.world.chain.history))) (by decide +kernel)
  obtain ⟨s, hs, hoff⟩ := (Option.any_eq_true ..).mp htest
  exact of_decide_eq_true hoff (hall c hc s hs)

end Guardian
