import Guardian.BlockWatch.Consumer

/- Every block the cursor has passed was processed, or a walk was asked for.

   A consumer that holds the lease knows of every block before the one it reads
   next that it is accounted for: the cursor it started from says so of the blocks
   up to it, a block it skips is skipped only after a request, and one it processes
   is processed before the cursor moves (`Upto`). What it knows holds while it has
   the lease, and that is enough: without the lease its cursor writes are refused,
   and the next holder starts from the cursor. A refused walk request may thus
   count as done.

   Processing a block reads the accounts four times, and accounts change in
   between. A move is therefore only promised to be recorded if at every moment of
   the processing the account was guarded, had a stored state other than the one it
   moved to, and no delta that leads there (`observableMove`). Of an account whose
   configuration is unfinished nothing is recorded (`unfinished_account_unobserved`). -/
namespace Guardian.BlockWatch

open Interleaving

/-! ## Blocks accounted for -/

/-- A move of a guarded account that no stored delta explains. -/
def unexplainedMove (account : StoredAccount) (commitment : Commitment) : Bool :=
  account.guarded && !decide (commitment ∈ account.candidatePosts) &&
    !decide (commitment ∈ account.canonicalPosts)

/-- Besides, the account has a stored state, and moved away from it. -/
def observableMove (account : StoredAccount) (commitment : Commitment) : Bool :=
  unexplainedMove account commitment &&
    account.stateCommitment.any (fun stored => !eqIgnoreAsciiCase stored commitment)

/-- The block was skipped. -/
def Skipped (log : List Entry) (b : Nat) : Prop :=
  ∃ first past, .skipped first past ∈ log ∧ first ≤ b ∧ b < past

/-- A walk request was recorded after the block was skipped. -/
def Owed : List Entry → Nat → Prop
  | [], _ => False
  | .requested :: older, b => Skipped older b ∨ Owed older b
  | _ :: older, b => Owed older b

/-- The block was delivered and read whole, and every move in it that `must` be
recorded at each moment from its delivery `until` some later one was. -/
def FullyProcessed (must : StoredAccount → Commitment → Bool) (w : World) (b : Nat) : Prop :=
  ∃ block delivered until_, .delivered block delivered ∈ w.log ∧ block.blockNum = b ∧
    block.undecodableUpdates = 0 ∧ until_ ≤ w.moment ∧
    ∀ update ∈ block.updates,
      (∀ i accounts, delivered ≤ i → i ≤ until_ → w.tables[i]? = some accounts →
        must (accounts update.accountId) update.commitment = true) →
      .recorded update.accountId b ∈ w.log

/-- Since the cursor was last put on another chain the block was processed, or
skipped with a walk requested after it; a block up to where the cursor was put
then was skipped, and the walk requested, before it was put there. -/
def Accounted (must : StoredAccount → Commitment → Bool) (w : World) (b : Nat) : Prop :=
  FullyProcessed must w b ∨ Owed w.log b ∨
    ∃ n, w.resetTo = some n ∧ b ≤ n ∧ Owed w.logBeforeReset b

/-! ## What the others leave alone -/

/-- The log and the accounts' history are only added to, and the cursor stays on
its chain. -/
structure Grows (w w' : World) : Prop where
  log : ∃ newer, w'.log = newer ++ w.log
  before : w'.logBeforeReset = w.logBeforeReset
  resetTo : w'.resetTo = w.resetTo
  tables : w.tables <+: w'.tables

namespace Grows
variable {w w' w'' : World}

theorem refl (w : World) : Grows w w := ⟨⟨[], rfl⟩, rfl, rfl, List.prefix_refl _⟩

theorem trans (h : Grows w w') (h' : Grows w' w'') : Grows w w'' := by
  obtain ⟨newer, hlog⟩ := h.log
  obtain ⟨newest, hlog'⟩ := h'.log
  refine ⟨⟨newest ++ newer, ?_⟩, h'.before.trans h.before, h'.resetTo.trans h.resetTo,
    h.tables.trans h'.tables⟩
  rw [hlog', hlog, List.append_assoc]

/-- Only the log grew. -/
theorem of_log (newer : List Entry) (hlog : w'.log = newer ++ w.log)
    (hbefore : w'.logBeforeReset = w.logBeforeReset) (hreset : w'.resetTo = w.resetTo)
    (hformerly : w'.formerly = w.formerly) (haccounts : w'.accounts = w.accounts) : Grows w w' := by
  refine ⟨⟨newer, hlog⟩, hbefore, hreset, ?_⟩
  rw [World.tables, World.tables, hformerly, haccounts]

theorem note (entry : Entry) (w : World) : Grows w (w.note entry) :=
  .of_log [entry] rfl rfl rfl rfl rfl

theorem mem_log (h : Grows w w') {entry : Entry} (hmem : entry ∈ w.log) : entry ∈ w'.log := by
  obtain ⟨newer, hlog⟩ := h.log
  rw [hlog]
  exact List.mem_append_right newer hmem

theorem moment_le (h : Grows w w') : w.moment ≤ w'.moment := by
  have hlen := h.tables.length_le
  simp only [World.tables, List.length_append, List.length_singleton] at hlen
  exact Nat.le_of_add_le_add_right hlen

/-- Former moments stay as they were. -/
theorem table_eq (h : Grows w w') {i : Nat} (hi : i ≤ w.moment) : w'.tables[i]? = w.tables[i]? := by
  obtain ⟨later, hlater⟩ := h.tables
  rw [← hlater]
  refine List.getElem?_append_left ?_
  simp only [World.tables, List.length_append, List.length_singleton]
  exact Nat.lt_succ_of_le hi

end Grows

theorem Skipped.append {log : List Entry} {b : Nat} (h : Skipped log b) (newer : List Entry) :
    Skipped (newer ++ log) b := by
  obtain ⟨first, past, hmem, hrange⟩ := h
  exact ⟨first, past, List.mem_append_right newer hmem, hrange⟩

theorem Owed.cons {log : List Entry} {b : Nat} (h : Owed log b) (entry : Entry) :
    Owed (entry :: log) b := by
  cases entry with
  | requested => exact .inr h
  | _ => exact h

theorem Owed.append {log : List Entry} {b : Nat} (h : Owed log b) (newer : List Entry) :
    Owed (newer ++ log) b := by
  induction newer with
  | nil => exact h
  | cons entry newer ih => exact ih.cons entry

section Stable
variable {must : StoredAccount → Commitment → Bool} {w w' : World} {b : Nat}

theorem FullyProcessed.grow (h : FullyProcessed must w b) (hg : Grows w w') :
    FullyProcessed must w' b := by
  obtain ⟨block, delivered, until_, hmem, hnum, hread, hle, hall⟩ := h
  refine ⟨block, delivered, until_, hg.mem_log hmem, hnum, hread,
    Nat.le_trans hle hg.moment_le, fun update hu hmust => ?_⟩
  refine hg.mem_log (hall update hu fun i accounts hfrom hto htable => ?_)
  exact hmust i accounts hfrom hto ((hg.table_eq (Nat.le_trans hto hle)).trans htable)

theorem Accounted.grow (h : Accounted must w b) (hg : Grows w w') : Accounted must w' b := by
  obtain hdone | howed | ⟨n, hn, hb, howed⟩ := h
  · exact .inl (hdone.grow hg)
  · obtain ⟨newer, hlog⟩ := hg.log
    refine .inr (.inl ?_)
    rw [hlog]
    exact howed.append newer
  · exact .inr (.inr ⟨n, hg.resetTo.trans hn, hb, hg.before ▸ howed⟩)

end Stable

/-- Every block before `n` is accounted for. -/
def Upto (n : Nat) (w : World) : Prop := ∀ b < n, Accounted observableMove w b

/-- The discipline of the consumers: the blocks up to the cursor are accounted
for, and whoever writes the cursor makes sure of it. While a process holds the
lease, nobody else touches the cursor or its log's beginning. -/
def watching : Rely Op World where
  inv := fun w => ∀ cursor, w.cursor = some cursor → ∀ b ≤ cursor.lastBlock,
    Accounted observableMove w b
  rely := fun pid w w' => w'.lease = some pid → w.lease = some pid ∧ Grows w w'
  ok := fun pid op w =>
    match op with
    | .setCursor n _ => w.lease = some pid → ∀ b ≤ n, Accounted observableMove w b
    | .resetCursor n _ => w.lease = some pid → ∀ b ≤ n, Owed w.log b
    | _ => True
  refl := fun w h => ⟨h, .refl w⟩
  trans := fun h h' hc => ⟨(h (h' hc).1).1, (h (h' hc).1).2.trans (h' hc).2⟩

/-! ## What a call does -/

theorem execAlive_of_exec {pid : Nat} {op : Op} {ch : Choice} {w : World} {x : Res op × World}
    (h : exec pid op ch w = some x) : execAlive pid op ch w = some x := by
  unfold exec at h
  split at h
  · exact h
  · cases h

theorem fenced_eq_some {α : Type} {pid : Nat} {w : World} {result : Option (α × World)}
    {x : α × World} (h : w.fenced pid result = some x) : w.lease = some pid ∧ result = some x := by
  unfold World.fenced at h
  split at h
  · next hlease => exact ⟨hlease, h⟩
  · cases h

theorem requestWalk_world {w w' : World} (h : w.requestWalk = some w') :
    ∃ walks, w' = World.note .requested { w with walks := walks } := by
  obtain ⟨walks, _, rfl⟩ := Option.map_eq_some_iff.mp h
  exact ⟨some walks, rfl⟩

theorem grows_requestWalk {w w' : World} (h : w.requestWalk = some w') : Grows w w' := by
  obtain ⟨walks, rfl⟩ := requestWalk_world h
  exact .of_log [.requested] rfl rfl rfl rfl rfl

theorem grows_deliver (message : Message) (w : World) : Grows w (w.deliver message) ∧
    (w.deliver message).lease = w.lease ∧ (w.deliver message).cursor = w.cursor := by
  cases message with
  | block block => exact ⟨.note _ w, rfl, rfl⟩
  | _ => exact ⟨.refl w, rfl, rfl⟩

/-- The lease and the cursor stay, and the log grows; or it is one of the three
calls that touch them. -/
theorem exec_cases {pid : Nat} {op : Op} {ch : Choice} {w w' : World} {r : Res op}
    (h : exec pid op ch w = some (r, w')) :
    (Grows w w' ∧ w'.lease = w.lease ∧ w'.cursor = w.cursor) ∨
    (op = .tryAcquire ∧ w.lease = none ∧ w' = { w with lease := some pid }) ∨
    (∃ n genesis, op = .setCursor n genesis ∧ w.lease = some pid ∧ w' = w.setCursor n genesis) ∨
    (∃ n genesis, op = .resetCursor n genesis ∧ w.lease = some pid ∧
      w' = w.resetCursor n genesis) := by
  have hsame : Grows w w ∧ w.lease = w.lease ∧ w.cursor = w.cursor := ⟨.refl w, rfl, rfl⟩
  have halive := execAlive_of_exec h
  cases op with
  | tryAcquire =>
    cases ch with
    | flag acquired =>
      simp only [execAlive] at halive
      split at halive
      · split at halive
        · next hfree => cases halive; exact .inr (.inl ⟨rfl, hfree, rfl⟩)
        · cases halive
      · cases halive; exact .inl hsame
    | _ => cases halive
  | receive transport =>
    cases ch with
    | message message =>
      cases halive
      exact .inl (grows_deliver _ w)
    | _ => cases halive
  | logSkip first past =>
    cases ch with
    | done => cases halive; exact .inl ⟨.note _ w, rfl, rfl⟩
    | _ => cases halive
  | requestWalk =>
    cases ch with
    | done =>
      obtain ⟨w₁, hw₁, heq⟩ := Option.map_eq_some_iff.mp (fenced_eq_some halive).2
      cases heq
      obtain ⟨walks, rfl⟩ := requestWalk_world hw₁
      exact .inl ⟨grows_requestWalk hw₁, rfl, rfl⟩
    | lost =>
      obtain ⟨w₁, hw₁, heq⟩ := Option.map_eq_some_iff.mp (fenced_eq_some halive).2
      cases heq
      obtain ⟨walks, rfl⟩ := requestWalk_world hw₁
      exact .inl ⟨grows_requestWalk hw₁, rfl, rfl⟩
    | stale =>
      simp only [execAlive] at halive
      split at halive
      · cases halive
      · cases halive; exact .inl hsame
    | failed => cases halive; exact .inl hsame
    | _ => cases halive
  | recordObservations observations =>
    cases ch with
    | done => cases halive; exact .inl ⟨.of_log _ rfl rfl rfl rfl rfl, rfl, rfl⟩
    | lost => cases halive; exact .inl ⟨.of_log _ rfl rfl rfl rfl rfl, rfl, rfl⟩
    | failed => cases halive; exact .inl hsame
    | _ => cases halive
  | setCursor n genesis =>
    cases ch with
    | done =>
      obtain ⟨hlease, heq⟩ := fenced_eq_some halive
      cases heq
      exact .inr (.inr (.inl ⟨n, genesis, rfl, hlease, rfl⟩))
    | lost =>
      obtain ⟨hlease, heq⟩ := fenced_eq_some halive
      cases heq
      exact .inr (.inr (.inl ⟨n, genesis, rfl, hlease, rfl⟩))
    | stale =>
      simp only [execAlive] at halive
      split at halive
      · cases halive
      · cases halive; exact .inl hsame
    | failed => cases halive; exact .inl hsame
    | _ => cases halive
  | resetCursor n genesis =>
    cases ch with
    | done =>
      obtain ⟨hlease, heq⟩ := fenced_eq_some halive
      cases heq
      exact .inr (.inr (.inr ⟨n, genesis, rfl, hlease, rfl⟩))
    | lost =>
      obtain ⟨hlease, heq⟩ := fenced_eq_some halive
      cases heq
      exact .inr (.inr (.inr ⟨n, genesis, rfl, hlease, rfl⟩))
    | stale =>
      simp only [execAlive] at halive
      split at halive
      · cases halive
      · cases halive; exact .inl hsame
    | failed => cases halive; exact .inl hsame
    | _ => cases halive
  | _ => cases ch <;> cases halive <;> exact .inl hsame

theorem act_grows {a : Act} {w w' : World} (h : act a w = some w') :
    Grows w w' ∧ w'.cursor = w.cursor ∧ (w'.lease = w.lease ∨ w'.lease = none) := by
  cases a with
  | lapse =>
    simp only [act] at h
    split at h <;> cases h <;> exact ⟨.of_log [] rfl rfl rfl rfl rfl, rfl, .inr rfl⟩
  | change accountId account =>
    cases h
    refine ⟨⟨⟨[], rfl⟩, rfl, rfl, ?_⟩, rfl, .inl rfl⟩
    exact List.prefix_append _ _
  | settle accountId blockNum =>
    cases h
    exact ⟨.of_log [] rfl rfl rfl rfl rfl, rfl, .inl rfl⟩
  | request =>
    obtain ⟨walks, hw⟩ := requestWalk_world h
    refine ⟨grows_requestWalk h, ?_, .inl ?_⟩ <;> rw [hw] <;> rfl

theorem inv_of_grows {w w' : World} (hi : watching.inv w) (hg : Grows w w')
    (hcursor : w'.cursor = w.cursor) : watching.inv w' := fun cursor hc b hb =>
  (hi cursor (hcursor ▸ hc) b hb).grow hg

theorem setCursor_lastBlock {n : Nat} {genesis : Option String} {old : Option Cursor}
    {cursor : Cursor} (h : (setCursor n genesis old).2 = some cursor) :
    cursor.lastBlock = n ∨ old = some cursor := by
  cases old with
  | none => cases h; exact .inl rfl
  | some c =>
    simp only [setCursor] at h
    split at h
    · cases h; exact .inl rfl
    · exact .inr h

theorem watching_kept : watching.Kept machine
    (Guard.any : Guard Op Consumer.Watch World Choice Act) (fun _ _ _ => True) where
  call := by
    intro pid op ch w r w' _ hok _ hx hi
    obtain ⟨hg, hlease, hcursor⟩ | ⟨rfl, hfree, rfl⟩ | ⟨n, genesis, rfl, hlease, rfl⟩ |
      ⟨n, genesis, rfl, hlease, rfl⟩ := exec_cases hx
    · exact ⟨inv_of_grows hi hg hcursor, fun _ h => ⟨hlease ▸ h, hg⟩⟩
    · refine ⟨hi, fun hne h => absurd (Option.some.inj h).symm hne⟩
    · have hne : ∀ {q}, q ≠ pid → w.lease ≠ some q := fun hq h =>
        hq (Option.some.inj (h.symm.trans hlease))
      refine ⟨fun cursor hc b hb => ?_, fun hq h => absurd h (hne hq)⟩
      have hg : Grows w (w.setCursor n genesis) := .of_log [] rfl rfl rfl rfl rfl
      obtain rfl | hold := setCursor_lastBlock hc
      · exact (hok hlease b hb).grow hg
      · exact (hi cursor hold b hb).grow hg
    · have hne : ∀ {q}, q ≠ pid → w.lease ≠ some q := fun hq h =>
        hq (Option.some.inj (h.symm.trans hlease))
      refine ⟨fun cursor hc b hb => ?_, fun hq h => absurd h (hne hq)⟩
      cases hc
      exact .inr (.inr ⟨n, rfl, hb, hok hlease b hb⟩)
  act := by
    intro a w w' _ hx hi
    obtain ⟨hg, hcursor, hlease⟩ := act_grows hx
    refine ⟨inv_of_grows hi hg hcursor, fun h => ?_⟩
    obtain heq | hnone := hlease
    · exact ⟨heq ▸ h, hg⟩
    · rw [hnone] at h
      cases h

/-! ## What a consumer knows -/

/-- True while the process holds the lease. -/
def Holding (pid : Nat) (F : World → Prop) (w : World) : Prop := w.lease = some pid → F w

/-- A fact that growing keeps. -/
def Stable (F : World → Prop) : Prop := ∀ w w', Grows w w' → F w → F w'

/-- Calls that leave the lease and the cursor alone. -/
def Op.isQuiet : Op → Bool
  | .tryAcquire | .setCursor .. | .resetCursor .. => false
  | _ => true

theorem Stable.and {F F' : World → Prop} (h : Stable F) (h' : Stable F') :
    Stable (fun w => F w ∧ F' w) := fun w w' hg hF => ⟨h w w' hg hF.1, h' w w' hg hF.2⟩

theorem stable_upto (n : Nat) : Stable (Upto n) := fun _ _ hg h b hb => (h b hb).grow hg

theorem stable_skipped (S : Nat → Prop) : Stable (fun w => ∀ b, S b → Skipped w.log b) := by
  intro w w' hg h b hb
  obtain ⟨newer, hlog⟩ := hg.log
  rw [hlog]
  exact (h b hb).append newer

theorem stable_owed (S : Nat → Prop) : Stable (fun w => ∀ b, S b → Owed w.log b) := by
  intro w w' hg h b hb
  obtain ⟨newer, hlog⟩ := hg.log
  rw [hlog]
  exact (h b hb).append newer

section Rules
variable {pid : Nat} {w : World} {α β : Type} {F : World → Prop}

/-- The rules below, for a consumer. -/
abbrev Wp (pid : Nat) (p : WatchProg α) (Q : α → World → Prop) (w : World) : Prop :=
  watching.wp machine (Guard.any : Guard Op Consumer.Watch World Choice Act) pid p Q w

theorem exec_quiet {op : Op} {ch : Choice} {r : Res op} {w' : World} (hq : op.isQuiet = true)
    (h : exec pid op ch w = some (r, w')) : Grows w w' ∧ w'.lease = w.lease := by
  obtain ⟨hg, hlease, -⟩ | ⟨rfl, -⟩ | ⟨n, genesis, rfl, -⟩ | ⟨n, genesis, rfl, -⟩ := exec_cases h
  · exact ⟨hg, hlease⟩
  · cases hq
  · cases hq
  · cases hq

theorem ok_quiet {op : Op} (hq : op.isQuiet = true) : watching.ok pid op w := by
  cases op <;> trivial

theorem steady_quiet (hF : Stable F) :
    watching.Steady machine (Guard.any : Guard Op Consumer.Watch World Choice Act) pid
      (fun o => o.isQuiet = true) (Holding pid F) where
  stable := fun hr hw hlease => hF _ _ (hr hlease).2 (hw (hr hlease).1)
  own := fun hq _ hx _ hw hlease => by
    obtain ⟨hg, heq⟩ := exec_quiet hq hx
    exact hF _ _ hg (hw (heq ▸ hlease))
  ok := fun hq _ _ => ok_quiet hq

/-- A call that leaves what is known alone, with what it does. -/
theorem wp_call {o : Op} {k : Res o → WatchProg β} {Q : β → World → Prop} (ho : o.isQuiet = true)
    (hF : Stable F) (hw : Holding pid F w)
    (hk : ∀ ch r w₁ w₂, exec pid o ch w₁ = some (r, w₂) → Holding pid F w₁ → Holding pid F w₂ →
      Wp pid (k r) Q w₂) : Wp pid (Consumer.call o >>= k) Q w := by
  intro w₁ hr hi
  have hw₁ := (steady_quiet hF).stable hr hw
  refine ⟨ok_quiet ho, fun ch r w₂ hg hx _ => ?_⟩
  exact hk ch r w₁ w₂ hx hw₁ ((steady_quiet hF).own ho hg hx hi hw₁)

/-- The same, whatever the answer. -/
theorem wp_ask {o : Op} {k : Res o → WatchProg β} {Q : β → World → Prop} (ho : o.isQuiet = true)
    (hF : Stable F) (hw : Holding pid F w) (hk : ∀ r w', Holding pid F w' → Wp pid (k r) Q w') :
    Wp pid (Consumer.call o >>= k) Q w :=
  wp_call ho hF hw fun _ r _ w₂ _ _ hw₂ => hk r w₂ hw₂

/-- A part that only makes such calls. -/
theorem wp_part {p : WatchProg α} {f : α → WatchProg β} {Q : β → World → Prop}
    (hp : p.Calls (fun o => o.isQuiet = true)) (hF : Stable F) (hw : Holding pid F w)
    (hf : ∀ a w', Holding pid F w' → Wp pid (f a) Q w') : Wp pid (p >>= f) Q w :=
  Rely.wp_bind (Rely.wp_mono (Rely.wp_frame (steady_quiet hF) hp Prog.Results.trivial hw)
    fun a w' h => hf a w' h.2)

end Rules

namespace Consumer
variable {pid : Nat} {w : World} {F : World → Prop} {S : Nat → Prop}

/-! ## Walk requests -/

theorem wp_logSkip {β : Type} {k : Unit → WatchProg β} {Q : β → World → Prop} {first past : Nat}
    (hF : Stable F) (hw : Holding pid F w)
    (hk : ∀ w', Holding pid (fun w => F w ∧ ∀ b, first ≤ b ∧ b < past → Skipped w.log b) w' →
      Wp pid (k ()) Q w') : Wp pid (call (.logSkip first past) >>= k) Q w := by
  refine wp_call rfl hF hw fun ch r w₁ w₂ hx _ hw₂ => hk w₂ fun hlease => ⟨hw₂ hlease, ?_⟩
  have halive := execAlive_of_exec hx
  cases ch <;> cases halive
  exact fun b hb => ⟨first, past, List.mem_cons_self, hb⟩

/-- A request that did not fail covers what was skipped; one that was refused
covers it as long as the lease is held, which it is not. -/
theorem wp_requestWalk (hF : Stable F)
    (hw : Holding pid (fun w => F w ∧ ∀ b, S b → Skipped w.log b) w) :
    Wp pid requestWalk (fun r w' => Holding pid F w' ∧
      (r ≠ .store → Holding pid (fun w => F w ∧ ∀ b, S b → Owed w.log b) w')) w := by
  refine wp_call rfl (hF.and (stable_skipped S)) hw fun ch r w₁ w₂ hx hw₁ hw₂ => ?_
  have hkeep : Holding pid F w₂ := fun hlease => (hw₂ hlease).1
  have halive := execAlive_of_exec hx
  cases ch with
  | done =>
    obtain ⟨hlease₁, heq⟩ := fenced_eq_some halive
    obtain ⟨w', hw', heq⟩ := Option.map_eq_some_iff.mp heq
    cases heq
    obtain ⟨walks, rfl⟩ := requestWalk_world hw'
    exact ⟨hkeep, fun _ hlease => ⟨hkeep hlease, fun b hb => .inl ((hw₁ hlease₁).2 b hb)⟩⟩
  | lost =>
    obtain ⟨-, heq⟩ := fenced_eq_some halive
    obtain ⟨w', -, heq⟩ := Option.map_eq_some_iff.mp heq
    cases heq
    exact ⟨hkeep, fun h => absurd rfl h⟩
  | stale =>
    simp only [execAlive] at halive
    split at halive
    · cases halive
    · next hlost =>
      cases halive
      exact ⟨hkeep, fun _ hlease => absurd hlease hlost⟩
  | failed =>
    cases halive
    exact ⟨hkeep, fun h => absurd rfl h⟩
  | _ => cases halive

theorem wp_requestWalkUntilRecorded (hF : Stable F) (retries : Nat) :
    ∀ {w}, Holding pid (fun w => F w ∧ ∀ b, S b → Skipped w.log b) w →
      Wp pid (requestWalkUntilRecorded retries) (fun done w' => Holding pid F w' ∧
        (done = true → Holding pid (fun w => F w ∧ ∀ b, S b → Owed w.log b) w')) w := by
  induction retries with
  | zero => exact fun hw => ⟨fun hlease => (hw hlease).1, fun h => by cases h⟩
  | succ retries ih =>
    intro w hw
    -- what was skipped stays skipped while the request is tried again
    have hstable : Stable (fun w => F w ∧ ∀ b, S b → Skipped w.log b) := hF.and (stable_skipped S)
    refine Rely.wp_bind (Rely.wp_mono (wp_requestWalk hstable (S := S)
      fun hlease => ⟨hw hlease, (hw hlease).2⟩) fun r w' h => ?_)
    cases r with
    | recorded =>
      exact ⟨fun hl => (h.1 hl).1, fun _ hl => ⟨(h.1 hl).1, (h.2 (by decide) hl).2⟩⟩
    | lostLease =>
      exact ⟨fun hl => (h.1 hl).1, fun _ hl => ⟨(h.1 hl).1, (h.2 (by decide) hl).2⟩⟩
    | store =>
      refine wp_ask rfl hstable h.1 fun stop w'' hw'' => ?_
      cases stop with
      | true => exact ⟨fun hl => (hw'' hl).1, fun hfalse => by cases hfalse⟩
      | false => exact ih hw''

theorem owed_upto {first past n : Nat} (h : Upto first w)
    (howed : ∀ b, first ≤ b ∧ b < past → Owed w.log b) (hn : n ≤ past) : Upto n w := by
  intro b hb
  by_cases hfirst : b < first
  · exact h b hfirst
  · exact .inr (.inl (howed b ⟨Nat.le_of_not_lt hfirst, Nat.lt_of_lt_of_le hb hn⟩))

theorem nextBlock_le (n : Nat) : nextBlock n ≤ n + 1 := Nat.min_le_left _ _

/-- Whichever block a skip goes on from, the blocks before it are accounted for. -/
theorem wp_skipMalformedBlock {retries n : Nat} (hw : Holding pid (Upto n) w) :
    Wp pid (skipMalformedBlock retries n) (fun next w' => Holding pid (Upto next) w') w := by
  refine wp_logSkip (stable_upto n) hw fun w₁ hw₁ => ?_
  refine Rely.wp_bind (Rely.wp_mono (wp_requestWalkUntilRecorded (stable_upto n) retries hw₁)
    fun done w₂ h => ?_)
  cases done with
  | true => exact fun hl => owed_upto (h.1 hl) (h.2 rfl hl).2 (nextBlock_le n)
  | false => exact h.1

theorem wp_jumpPastUnavailable {requests n : Nat} (retries : Nat) :
    ∀ {w}, Holding pid (Upto n) w →
      Wp pid (jumpPastUnavailable requests n retries)
        (fun next w' => Holding pid (Upto next) w') w := by
  induction retries with
  | zero => exact fun hw => hw
  | succ retries ih =>
    intro w hw
    refine wp_ask rfl (stable_upto n) hw fun tip w₁ hw₁ => ?_
    cases tip with
    | none =>
      refine wp_ask rfl (stable_upto n) hw₁ fun stop w₂ hw₂ => ?_
      cases stop with
      | true => exact hw₂
      | false => exact ih hw₂
    | some tip =>
      refine wp_logSkip (stable_upto n) hw₁ fun w₂ hw₂ => ?_
      refine Rely.wp_bind (Rely.wp_mono (wp_requestWalkUntilRecorded (stable_upto n) requests hw₂)
        fun done w₃ h => ?_)
      cases done with
      | true => exact fun hl => owed_upto (h.1 hl) (h.2 rfl hl).2 (Nat.le_refl _)
      | false => exact h.1

/-! ## Where a consumer starts -/

/-- The blocks before a start are accounted for, where there is one. -/
def Starts (pid : Nat) (position : Option Nat) (w : World) : Prop :=
  ∀ n, position = some n → Holding pid (Upto n) w

theorem wp_startAtTip {first tip : Nat} (hw : Holding pid (Upto first) w) :
    Wp pid (startAtTip first tip) (Starts pid) w := by
  refine wp_logSkip (stable_upto first) hw fun w₁ hw₁ => ?_
  refine Rely.wp_bind (Rely.wp_mono (wp_requestWalk (stable_upto first) hw₁) fun r w₂ h => ?_)
  cases r with
  | recorded =>
    intro n hn
    cases hn
    exact fun hl => owed_upto (h.1 hl) (h.2 (by decide) hl).2 (Nat.le_refl _)
  | lostLease => exact fun n hn => by cases hn
  | store => exact fun n hn => by cases hn

/-- A start on another chain asks for its walk first. -/
theorem wp_startOver {tip : Nat} {feed : Feed} :
    Wp pid (startOver tip feed) (Starts pid) w := by
  have hnone : Stable (fun _ : World => True) := fun _ _ _ _ => trivial
  refine wp_logSkip hnone (fun _ => trivial) fun w₁ hw₁ => ?_
  refine Rely.wp_bind (Rely.wp_mono (wp_requestWalk hnone hw₁) fun r w₂ h => ?_)
  have hstop : ∀ {w'}, Starts pid none w' := fun n hn => by cases hn
  cases r with
  | recorded =>
    have howed : Holding pid (fun w => ∀ b, 0 ≤ b ∧ b < tip - 1 + 1 → Owed w.log b) w₂ :=
      fun hl => (h.2 (by decide) hl).2
    intro w₃ hr hi
    have howed₃ := (steady_quiet (stable_owed _)).stable hr howed
    refine ⟨fun hl b hb => howed₃ hl b ⟨Nat.zero_le b, Nat.lt_succ_of_le hb⟩,
      fun ch answer w₄ _ hx hi₄ => ?_⟩
    have halive := execAlive_of_exec hx
    cases ch with
    | done =>
      obtain ⟨-, heq⟩ := fenced_eq_some halive
      cases heq
      intro n hn
      cases hn
      exact fun _ b hb => hi₄ _ rfl b (Nat.le_sub_one_of_lt hb)
    | lost =>
      obtain ⟨-, heq⟩ := fenced_eq_some halive
      cases heq
      exact hstop
    | stale =>
      simp only [execAlive] at halive
      split at halive
      · cases halive
      · cases halive; exact hstop
    | failed => cases halive; exact hstop
    | _ => cases halive
  | lostLease => exact hstop
  | store => exact hstop

theorem wp_resume {cursor : Cursor} {feed : Feed}
    (hw : Holding pid (Upto (cursor.lastBlock + 1)) w) :
    Wp pid (resume cursor feed) (fun r w' => Starts pid r.1 w') w := by
  have hstart : ∀ {w'}, Holding pid (Upto (cursor.lastBlock + 1)) w' →
      Starts pid (some (nextBlock cursor.lastBlock)) w' := by
    intro w' hw' n hn
    cases hn
    exact fun hl b hb => hw' hl b (Nat.lt_of_lt_of_le hb (nextBlock_le _))
  unfold resume
  split
  · refine Rely.wp_bind (Rely.wp_mono (wp_requestWalk (S := fun _ => False) (stable_upto _)
      fun hl => ⟨hw hl, fun b hb => absurd hb id⟩) fun r w₁ h => ?_)
    cases r with
    | recorded => exact hstart h.1
    | lostLease => exact fun n hn => by cases hn
    | store => exact fun n hn => by cases hn
  · exact hstart hw

theorem wp_startFrom {cfg : WatchConfig} {cursor : Option Cursor} {tip : Nat} {feed : Feed}
    (hw : ∀ c, cursor = some c → Holding pid (Upto (c.lastBlock + 1)) w) :
    Wp pid (startFrom cfg cursor tip feed) (fun r w' => Starts pid r.1 w') w := by
  unfold startFrom
  split
  · exact Rely.wp_bind (Rely.wp_mono (wp_startAtTip fun _ b hb => absurd hb (Nat.not_lt_zero b))
      fun _ _ h => h)
  · next c =>
    split
    · exact Rely.wp_bind (Rely.wp_mono (wp_startAtTip (hw c rfl)) fun _ _ h => h)
    · exact wp_resume (hw c rfl)

theorem readGenesis_quiet (cursor : Option Cursor) :
    (readGenesis cursor).Calls (fun o => o.isQuiet = true) := by
  refine ⟨rfl, fun r => ?_⟩
  cases r with
  | none => trivial
  | some genesis =>
    cases genesis with
    | none =>
      dsimp only
      split
      · exact ⟨rfl, fun _ => trivial⟩
      · trivial
    | some genesis => trivial

/-- The cursor a start reads says that the blocks up to it are accounted for. -/
theorem wp_startPosition {cfg : WatchConfig} {feed : Feed} :
    Wp pid (startPosition cfg feed) (fun r w' => Starts pid r.1 w') w := by
  have hstop : ∀ {w'}, Starts pid none w' := fun n hn => by cases hn
  intro w₁ hr hi
  refine ⟨trivial, fun ch read w₂ _ hx hi₂ => ?_⟩
  have halive := execAlive_of_exec hx
  cases ch with
  | failed => cases halive; exact hstop
  | done =>
    cases halive
    have hread : Holding pid (fun w => ∀ c, w₁.cursor = some c → Upto (c.lastBlock + 1) w) w₁ :=
      fun _ c hc b hb => hi₂ c hc b (Nat.le_of_lt_succ hb)
    have hstable : Stable (fun w => ∀ c, w₁.cursor = some c → Upto (c.lastBlock + 1) w) :=
      fun _ _ hg h c hc => stable_upto _ _ _ hg (h c hc)
    refine wp_ask rfl hstable hread fun tip w₃ hw₃ => ?_
    cases tip with
    | none => exact hstop
    | some tip =>
      refine wp_part (readGenesis_quiet _) hstable hw₃ fun genesis w₄ hw₄ => ?_
      cases genesis with
      | none => exact hstop
      | some genesis =>
        refine wp_ask rfl hstable hw₄ fun behindTooLong w₅ hw₅ => ?_
        dsimp only
        split
        · exact Rely.wp_bind (Rely.wp_mono wp_startOver fun _ _ h => h)
        · exact wp_startFrom fun c hc hl => hw₅ hl c hc
  | _ => cases halive

theorem wp_start {cfg : WatchConfig} (retries : Nat) : ∀ {feed : Feed} {w},
    Wp pid (start cfg retries feed) (fun r w' => Starts pid r.1 w') w := by
  induction retries with
  | zero => exact fun n hn => by cases hn
  | succ retries ih =>
    intro feed w
    refine Rely.wp_bind (Rely.wp_mono wp_startPosition fun r w₁ h => ?_)
    obtain ⟨position, feed⟩ := r
    cases position with
    | some n => exact h
    | none =>
      refine wp_ask (F := fun _ => True) rfl (fun _ _ _ _ => trivial) (fun _ => trivial)
        fun stop w₂ _ => ?_
      cases stop with
      | true => exact fun n hn => by cases hn
      | false => exact ih

/-! ## One block -/

/-- At some moment since the delivery the move did not have to be recorded. -/
def Spared (since : Nat) (update : AccountUpdate) (w : World) : Prop :=
  ∃ i accounts, since ≤ i ∧ i ≤ w.moment ∧ w.tables[i]? = some accounts ∧
    observableMove (accounts update.accountId) update.commitment = false

theorem stable_spared (since : Nat) (update : AccountUpdate) : Stable (Spared since update) := by
  intro w w' hg h
  obtain ⟨i, accounts, hsince, hi, htable, hmove⟩ := h
  exact ⟨i, accounts, hsince, Nat.le_trans hi hg.moment_le, (hg.table_eq hi).trans htable, hmove⟩

theorem spared_now {since : Nat} {update : AccountUpdate} (hsince : since ≤ w.moment)
    (hmove : observableMove (w.accounts update.accountId) update.commitment = false) :
    Spared since update w :=
  ⟨w.moment, w.accounts, hsince, Nat.le_refl _, List.getElem?_concat_length, hmove⟩

theorem stable_sparedAll (since : Nat) (P : AccountUpdate → Prop) :
    Stable (fun w => ∀ update, P update → Spared since update w) :=
  fun _ _ hg h update hP => stable_spared since update _ _ hg (h update hP)

theorem observableMove_of_unguarded {account : StoredAccount} {commitment : Commitment}
    (h : account.guarded = false) : observableMove account commitment = false := by
  simp [observableMove, unexplainedMove, h]

theorem observableMove_of_stored {account : StoredAccount} {commitment : Commitment}
    (h : ∀ c, account.stateCommitment = some c → eqIgnoreAsciiCase c commitment = true) :
    observableMove account commitment = false := by
  have hnone : account.stateCommitment.any (fun c => !eqIgnoreAsciiCase c commitment) = false := by
    cases hc : account.stateCommitment with
    | none => rfl
    | some c => simp [h c hc]
  rw [observableMove, hnone, Bool.and_false]

theorem observableMove_of_delta {account : StoredAccount} {commitment : Commitment}
    (h : commitment ∈ account.candidatePosts ∨ commitment ∈ account.canonicalPosts) :
    observableMove account commitment = false := by
  rcases h with h | h <;> simp [observableMove, unexplainedMove, h]

theorem lookup_stateCommitments (accounts : Accounts) {ids : List String} {id : String}
    (h : id ∈ ids) : (accounts.stateCommitments ids).lookup id = (accounts id).stateCommitment := by
  induction ids with
  | nil => cases h
  | cons x ids ih =>
    by_cases hx : x = id
    · subst hx
      cases hc : (accounts x).stateCommitment with
      | none =>
        by_cases hrest : x ∈ ids
        · simpa [Accounts.stateCommitments, hc] using ih hrest
        · have hlookup : (accounts.stateCommitments ids).lookup x = none := by
            rw [List.lookup_eq_none_iff]
            intro pair hpair
            obtain ⟨y, hy, heq⟩ := List.mem_filterMap.mp hpair
            obtain ⟨c, -, rfl⟩ := Option.map_eq_some_iff.mp heq
            exact bne_iff_ne.mpr fun hxy => hrest (hxy ▸ hy)
          simpa [Accounts.stateCommitments, hc] using hlookup
      | some c => simp [Accounts.stateCommitments, hc]
    · have hrest : id ∈ ids := (List.mem_cons.mp h).resolve_left fun heq => hx heq.symm
      cases hc : (accounts x).stateCommitment with
      | none => simpa [Accounts.stateCommitments, hc] using ih hrest
      | some c =>
        have hne : (id == x) = false := beq_false_of_ne fun heq => hx heq.symm
        simpa [Accounts.stateCommitments, hc, List.lookup_cons, hne] using ih hrest

/-- A read of the accounts, and what its answer says. -/
def Reading {α : Type} (pid : Nat) (F : World → Prop) (Fact : α → World → Prop)
    (r : Option α) (w : World) : Prop :=
  Holding pid F w ∧ ∀ a, r = some a → Holding pid (Fact a) w

theorem Reading.bind {α β : Type} {p : WatchProg (Option α)} {f : Option α → WatchProg β}
    {Fact : α → World → Prop} {Q : β → World → Prop}
    (hp : Wp pid p (Reading pid F Fact) w)
    (hnone : ∀ w', Holding pid F w' → Wp pid (f none) Q w')
    (hsome : ∀ a w', Holding pid (fun w => F w ∧ Fact a w) w' → Wp pid (f (some a)) Q w') :
    Wp pid (p >>= f) Q w := by
  refine Rely.wp_bind (Rely.wp_mono hp fun r w' h => ?_)
  cases r with
  | none => exact hnone w' h.1
  | some a => exact hsome a w' fun hl => ⟨h.1 hl, h.2 a rfl hl⟩

section Block
variable {block : ObservedBlock} {since : Nat} (hF : Stable F)
  (hsince : ∀ {w}, F w → since ≤ w.moment)
include hF hsince

/-- One call, whose answer is computed from the accounts. -/
theorem wp_readCall {α : Type} {o : Op} (answer : Res o → Option α) (ho : o.isQuiet = true)
    {Fact : α → World → Prop}
    (hfact : ∀ {ch r w₁ w₂ a}, exec pid o ch w₁ = some (r, w₂) → answer r = some a →
      since ≤ w₁.moment → w₂ = w₁ ∧ Fact a w₁) (hw : Holding pid F w) :
    Wp pid (call o) (fun r w' => Reading pid F Fact (answer r) w') w := by
  intro w₁ hr hi
  have hw₁ := (steady_quiet hF).stable hr hw
  refine ⟨ok_quiet ho, fun ch r w₂ hg hx _ => ?_⟩
  have hw₂ := (steady_quiet hF).own ho hg hx hi hw₁
  refine ⟨hw₂, fun a ha hl => ?_⟩
  have hlease : w₁.lease = some pid := (exec_quiet ho hx).2 ▸ hl
  obtain ⟨rfl, hall⟩ := hfact hx ha (hsince (hw₁ hlease))
  exact hall

/-- An account outside the membership is not guarded. -/
theorem wp_readMembership (hw : Holding pid F w) :
    Wp pid (readAccounts.readMembership (block.updates.map (·.accountId)).eraseDups)
      (Reading pid F fun membership w => ∀ update, (update ∈ block.updates ∧
        update.accountId ∉ membership.sweepable ∧
        update.accountId ∉ membership.pendingCandidate) → Spared since update w) w := by
  have hids : ∀ {update}, update ∈ block.updates →
      update.accountId ∈ (block.updates.map (·.accountId)).eraseDups := fun hu =>
    List.mem_eraseDups.mpr (List.mem_map_of_mem hu)
  unfold readAccounts.readMembership
  split
  · next hempty =>
    refine ⟨hw, fun membership _ _ update hu => ?_⟩
    have hmem := hids hu.1
    rw [List.isEmpty_iff.mp hempty] at hmem
    cases hmem
  · refine wp_readCall (o := .membership _) hF hsince id rfl
      (fun {ch r w₁ w₂ membership} hx ha hle => ?_) hw
    have halive := execAlive_of_exec hx
    cases ch <;> cases halive <;> cases ha
    refine ⟨rfl, fun update hu => spared_now hle (observableMove_of_unguarded ?_)⟩
    obtain ⟨hmem, hsweepable, hpending⟩ := hu
    simp only [Accounts.membership, List.mem_filter, not_and] at hsweepable hpending
    have h₁ := hsweepable (hids hmem)
    have h₂ := hpending (hids hmem)
    cases hg : (w₁.accounts update.accountId).guarded with
    | false => rfl
    | true => cases hp : (w₁.accounts update.accountId).hasPendingCandidate <;> simp_all

/-- A guarded account without a stored state, or at it, need not be observed. -/
theorem wp_readStored (hw : Holding pid F w) (membership : ReleaseSweepMembership) :
    Wp pid (readAccounts.readStored membership)
      (Reading pid F fun stored w => ∀ update, (update.accountId ∈ membership.sweepable ++
        membership.pendingCandidate ∧ ∀ c, stored.lookup update.accountId = some c →
          eqIgnoreAsciiCase c update.commitment = true) → Spared since update w) w := by
  unfold readAccounts.readStored
  split
  · next hempty =>
    refine ⟨hw, fun stored _ _ update hu => ?_⟩
    rw [Bool.and_eq_true, List.isEmpty_iff, List.isEmpty_iff] at hempty
    rw [hempty.1, hempty.2] at hu
    cases hu.1
  · refine wp_readCall (o := .stateCommitments _) hF hsince id rfl
      (fun {ch r w₁ w₂ stored} hx ha hle => ?_) hw
    have halive := execAlive_of_exec hx
    cases ch <;> cases halive <;> cases ha
    refine ⟨rfl, fun update hu => spared_now hle (observableMove_of_stored fun c hc => ?_)⟩
    exact hu.2 c ((lookup_stateCommitments w₁.accounts hu.1).trans hc)

/-- A landed candidate explains the move. -/
theorem wp_readLanded (hw : Holding pid F w) (pairs : List (String × Commitment)) :
    Wp pid (readAccounts.readLanded pairs)
      (Reading pid F fun landed w => ∀ update : AccountUpdate,
        (update.accountId, update.commitment) ∈ landed → Spared since update w) w := by
  unfold readAccounts.readLanded
  split
  · refine ⟨hw, fun landed hlanded _ update hu => ?_⟩
    cases hlanded
    cases hu
  · refine wp_readCall (o := .candidatePostStates _) hF hsince id rfl
      (fun {ch r w₁ w₂ landed} hx ha hle => ?_) hw
    have halive := execAlive_of_exec hx
    cases ch <;> cases halive <;> cases ha
    refine ⟨rfl, fun update hu => spared_now hle (observableMove_of_delta (.inl ?_))⟩
    exact of_decide_eq_true (List.mem_filter.mp hu).2

/-- So does a canonical delta. -/
theorem wp_readOwnHistory (hw : Holding pid F w) (moved : List AccountUpdate) :
    Wp pid (readOwnHistory moved)
      (Reading pid F fun ownHistory w => ∀ update : AccountUpdate,
        (update.accountId, update.commitment) ∈ ownHistory → Spared since update w) w := by
  unfold readOwnHistory
  split
  · refine ⟨hw, fun ownHistory hhistory _ update hu => ?_⟩
    cases hhistory
    cases hu
  · refine wp_readCall (o := .canonicalPostStates _) hF hsince id rfl
      (fun {ch r w₁ w₂ ownHistory} hx ha hle => ?_) hw
    have halive := execAlive_of_exec hx
    cases ch <;> cases halive <;> cases ha
    refine ⟨rfl, fun update hu => spared_now hle (observableMove_of_delta (.inr ?_))⟩
    exact of_decide_eq_true (List.mem_filter.mp hu).2

/-- What is not taken for a move need not be observed. -/
theorem wp_readAccounts (hw : Holding pid F w) :
    Wp pid (readAccounts block) (Reading pid F fun reads w => ∀ update,
      (update ∈ block.updates ∧ reads.outcome update ≠ .observed) → Spared since update w) w := by
  have hnone : ∀ {w'}, Holding pid F w' → Reading pid F (fun (reads : BlockReads) w => ∀ update,
      (update ∈ block.updates ∧ reads.outcome update ≠ .observed) → Spared since update w)
      none w' := fun h => ⟨h, fun _ ha => by cases ha⟩
  refine Reading.bind (wp_readMembership hF hsince hw) (fun _ h => hnone h)
    fun membership w₁ hw₁ => ?_
  have hF₁ := hF.and (stable_sparedAll since fun update => update ∈ block.updates ∧
    update.accountId ∉ membership.sweepable ∧ update.accountId ∉ membership.pendingCandidate)
  refine Reading.bind (wp_readStored hF₁ (fun h => hsince h.1) hw₁ membership)
    (fun _ h => hnone fun hl => (h hl).1) fun stored w₂ hw₂ => ?_
  have hF₂ := hF₁.and (stable_sparedAll since fun update =>
    update.accountId ∈ membership.sweepable ++ membership.pendingCandidate ∧
      ∀ c, stored.lookup update.accountId = some c → eqIgnoreAsciiCase c update.commitment = true)
  refine Reading.bind (wp_readLanded hF₂ (fun h => hsince h.1.1) hw₂ _)
    (fun _ h => hnone fun hl => (h hl).1.1) fun landed w₃ hw₃ => ?_
  refine ⟨fun hl => (hw₃ hl).1.1.1, fun reads hreads hl update hu => ?_⟩
  cases hreads
  obtain ⟨⟨⟨_, houtside⟩, hstored⟩, hlanded⟩ := hw₃ hl
  obtain ⟨hmem, houtcome⟩ := hu
  simp only [BlockReads.outcome] at houtcome
  split at houtcome
  · next hout => exact houtside update ⟨hmem, hout⟩
  · next hin =>
    have hguarded : update.accountId ∈ membership.sweepable ++ membership.pendingCandidate := by
      rw [List.mem_append]
      exact Decidable.or_iff_not_not_and_not.mpr hin
    split at houtcome
    · next hlookup =>
      refine hstored update ⟨hguarded, fun c hc => ?_⟩
      rw [hlookup] at hc
      cases hc
    · next c hlookup =>
      split at houtcome
      · next heq =>
        refine hstored update ⟨hguarded, fun c' hc' => ?_⟩
        cases hlookup.symm.trans hc'
        exact heq
      · split at houtcome
        · next hland => exact hlanded update hland
        · exact absurd rfl houtcome

end Block

/-- What a consumer knows of a block it processes. -/
structure Delivered (block : ObservedBlock) (since : Nat) (w : World) : Prop where
  before : Upto block.blockNum w
  noted : .delivered block since ∈ w.log
  since_le : since ≤ w.moment

theorem stable_delivered (block : ObservedBlock) (since : Nat) : Stable (Delivered block since) :=
  fun _ _ hg h => ⟨stable_upto _ _ _ hg h.before, hg.mem_log h.noted,
    Nat.le_trans h.since_le hg.moment_le⟩

theorem wp_requestForUndecodable {block : ObservedBlock} (hF : Stable F) (hw : Holding pid F w) :
    Wp pid (requestForUndecodable block) (fun r w' => Holding pid F w' ∧ (r = .recorded →
      Holding pid (fun w => F w ∧ (0 < block.undecodableUpdates → Owed w.log block.blockNum))
        w')) w := by
  unfold requestForUndecodable
  split
  · refine wp_logSkip hF hw fun w₁ hw₁ => ?_
    refine Rely.wp_mono (wp_requestWalk hF hw₁) fun r w₂ h => ⟨h.1, fun hr hl => ?_⟩
    subst hr
    have howed := h.2 (by decide) hl
    exact ⟨howed.1, fun _ => howed.2 block.blockNum ⟨Nat.le_refl _, Nat.lt_succ_self _⟩⟩
  · next hread => exact ⟨hw, fun _ hl => ⟨hw hl, fun h => absurd h hread⟩⟩

/-- Everything a block owes before the cursor passes it, but what is still to be
recorded. -/
structure Ready (block : ObservedBlock) (since : Nat) (observations : List NewObservation)
    (w : World) : Prop where
  delivered : Delivered block since w
  owed : 0 < block.undecodableUpdates → Owed w.log block.blockNum
  moves : ∀ update ∈ block.updates, Spared since update w ∨
    ∃ o ∈ observations, o.accountId = update.accountId ∧ o.blockNum = block.blockNum

theorem stable_ready (block : ObservedBlock) (since : Nat) (observations : List NewObservation) :
    Stable (Ready block since observations) := by
  intro w w' hg h
  refine ⟨stable_delivered block since _ _ hg h.delivered, fun hu => ?_, fun update hu => ?_⟩
  · exact stable_owed (fun b => b = block.blockNum) _ _ hg (fun b hb => hb ▸ h.owed hu) _ rfl
  · exact (h.moves update hu).imp_left (stable_spared since update _ _ hg)

/-- With its observations in the log, the block is accounted for. -/
theorem Ready.accounted {block : ObservedBlock} {since : Nat} {observations : List NewObservation}
    (h : Ready block since observations w)
    (hrecorded : ∀ o ∈ observations, .recorded o.accountId o.blockNum ∈ w.log) :
    Upto (block.blockNum + 1) w := by
  intro b hb
  by_cases hbefore : b < block.blockNum
  · exact h.delivered.before b hbefore
  obtain rfl : b = block.blockNum := by omega
  by_cases hread : block.undecodableUpdates = 0
  · refine .inl ⟨block, since, w.moment, h.delivered.noted, rfl, hread, Nat.le_refl _,
      fun update hu hmust => ?_⟩
    obtain ⟨i, accounts, hsince, hi, htable, hmove⟩ | ⟨o, ho, hid, hnum⟩ := h.moves update hu
    · have hmove' := hmust i accounts hsince hi htable
      rw [hmove] at hmove'
      cases hmove'
    · have hlog := hrecorded o ho
      rwa [hid, hnum] at hlog
  · exact .inr (.inl (h.owed (Nat.pos_of_ne_zero hread)))

/-- Where the block is done, everything up to it is accounted for. -/
def Done (pid : Nat) (F : World → Prop) (block : ObservedBlock) (r : Processed) (w : World) :
    Prop :=
  Holding pid F w ∧ (r = .done → Holding pid (Upto (block.blockNum + 1)) w)

/-- The cursor moves only past a block that is accounted for. -/
theorem wp_advance {block : ObservedBlock} {genesis : Option String} (hF : Stable F)
    (hw : Holding pid (fun w => F w ∧ Upto (block.blockNum + 1) w) w) :
    Wp pid (do
      match ← call (.setCursor block.blockNum genesis) with
      | some .staleLease => return .lostLease
      | some _ => return .done
      | none => return .store) (Done pid F block) w := by
  intro w₁ hr hi
  have hstable := hF.and (stable_upto (block.blockNum + 1))
  have hw₁ := (steady_quiet hstable).stable hr hw
  refine ⟨fun hl b hb => (hw₁ hl).2 b (Nat.lt_succ_of_le hb), fun ch r w₂ _ hx _ => ?_⟩
  have hw₂ : Holding pid (fun w => F w ∧ Upto (block.blockNum + 1) w) w₂ := by
    obtain ⟨hg, hlease, -⟩ | ⟨hop, -⟩ | ⟨n, genesis', hop, hlease, rfl⟩ | ⟨n, genesis', hop, -⟩ :=
      exec_cases hx
    · exact fun hl => hstable _ _ hg (hw₁ (hlease ▸ hl))
    · cases hop
    · exact fun _ => hstable _ _ (.of_log [] rfl rfl rfl rfl rfl) (hw₁ hlease)
    · cases hop
  have hdone : ∀ r, Done pid F block r w₂ := fun r =>
    ⟨fun hl => (hw₂ hl).1, fun _ hl => (hw₂ hl).2⟩
  cases r with
  | none => exact hdone _
  | some answer => cases answer <;> exact hdone _

theorem wp_recordAndAdvance {block : ObservedBlock} {genesis : Option String} (since : Nat)
    {observations : List NewObservation} (hw : Holding pid (Ready block since observations) w) :
    Wp pid (recordAndAdvance block genesis observations)
      (Done pid (Delivered block since) block) w := by
  have hready := stable_ready block since observations
  unfold recordAndAdvance
  split
  · next hempty =>
    rw [List.isEmpty_iff] at hempty
    subst hempty
    refine wp_advance (stable_delivered block since) fun hl => ⟨(hw hl).delivered, ?_⟩
    exact (hw hl).accounted fun o ho => by cases ho
  · refine wp_call rfl hready hw fun ch r w₁ w₂ hx _ hw₂ => ?_
    have hstore : Done pid (Delivered block since) block .store w₂ :=
      ⟨fun hl => (hw₂ hl).delivered, fun h => by cases h⟩
    have halive := execAlive_of_exec hx
    cases ch <;> cases halive
    · refine wp_advance (stable_delivered block since) fun hl => ⟨(hw₂ hl).delivered, ?_⟩
      refine (hw₂ hl).accounted fun o ho => List.mem_append_left _ ?_
      exact List.mem_map_of_mem (f := fun o => Entry.recorded o.accountId o.blockNum) ho
    · exact hstore
    · exact hstore

/-- Of the moves, those that are not the account's own history are observed. -/
theorem mem_observationsOf {block : ObservedBlock} {reads : BlockReads}
    {ownHistory : List (String × Commitment)} {update : AccountUpdate}
    (hmem : update ∈ block.updates) (hmoved : reads.outcome update = .observed)
    (hnew : (update.accountId, update.commitment) ∉ ownHistory) :
    ∃ o ∈ observationsOf block (movedUpdates reads block) ownHistory,
      o.accountId = update.accountId ∧ o.blockNum = block.blockNum := by
  refine ⟨⟨update.accountId, block.blockNum, update.commitment⟩, ?_, rfl, rfl⟩
  refine List.mem_map.mpr ⟨update, List.mem_filter.mpr ⟨?_, ?_⟩, rfl⟩
  · exact List.mem_filter.mpr ⟨hmem, decide_eq_true hmoved⟩
  · simpa using hnew

/-- A processed block, and all before it, are accounted for. -/
theorem wp_process {block : ObservedBlock} {genesis : Option String} {since : Nat}
    (hw : Holding pid (Delivered block since) w) :
    Wp pid (process block genesis) (Done pid (Delivered block since) block) w := by
  have hstable := stable_delivered block since
  have hstop : ∀ {r w'}, r ≠ Processed.done → Holding pid (Delivered block since) w' →
      Done pid (Delivered block since) block r w' := fun hne h => ⟨h, fun hr => absurd hr hne⟩
  refine Reading.bind (wp_readAccounts hstable (·.since_le) hw)
    (fun _ h => hstop (by decide) h) fun reads w₁ hw₁ => ?_
  have hF₁ := hstable.and (stable_sparedAll since fun update =>
    update ∈ block.updates ∧ reads.outcome update ≠ .observed)
  refine Reading.bind (wp_readOwnHistory hF₁ (·.1.since_le) hw₁ (movedUpdates reads block))
    (fun _ h => hstop (by decide) fun hl => (h hl).1) fun ownHistory w₂ hw₂ => ?_
  have hF₂ := hF₁.and (stable_sparedAll since fun update =>
    (update.accountId, update.commitment) ∈ ownHistory)
  refine Rely.wp_bind (Rely.wp_mono (wp_requestForUndecodable hF₂ hw₂) fun r w₃ h => ?_)
  cases r with
  | lostLease => exact hstop (by decide) fun hl => (h.1 hl).1.1
  | store => exact hstop (by decide) fun hl => (h.1 hl).1.1
  | recorded =>
    refine wp_recordAndAdvance since fun hl => ?_
    obtain ⟨⟨⟨hdelivered, hquiet⟩, hown⟩, howed⟩ := h.2 rfl hl
    refine ⟨hdelivered, howed, fun update hu => ?_⟩
    by_cases hmoved : reads.outcome update = .observed
    · by_cases hhistory : (update.accountId, update.commitment) ∈ ownHistory
      · exact .inl (hown update hhistory)
      · exact .inr (mem_observationsOf hu hmoved hhistory)
    · exact .inl (hquiet update ⟨hu, hmoved⟩)

theorem wp_processUntilDone {block : ObservedBlock} {genesis : Option String} {since : Nat}
    (retries : Nat) : ∀ {w}, Holding pid (Delivered block since) w →
      Wp pid (processUntilDone block genesis retries)
        (fun done w' => done = true → Holding pid (Upto (block.blockNum + 1)) w') w := by
  induction retries with
  | zero => exact fun _ h => by cases h
  | succ retries ih =>
    intro w hw
    refine Rely.wp_bind (Rely.wp_mono (wp_process hw) fun r w₁ h => ?_)
    cases r with
    | done => exact fun _ => h.2 rfl
    | lostLease => exact fun hfalse => by cases hfalse
    | store =>
      refine wp_ask rfl (stable_delivered block since) h.1 fun stop w₂ hw₂ => ?_
      cases stop with
      | true => exact fun hfalse => by cases hfalse
      | false => exact ih hw₂

/-! ## The loop -/

/-- The blocks before the next one are accounted for, and an open source delivers
it. -/
structure Sound (pid : Nat) (l : Loop) (w : World) : Prop where
  before : Holding pid (Upto l.next) w
  source : ∀ {transport expected}, l.source = some (transport, expected) → expected = l.next

/-- The loop goes on soundly, where it goes on. -/
def GoesOn (pid : Nat) (r : Option Loop) (w : World) : Prop := ∀ l, r = some l → Sound pid l w

theorem goesOn_none : GoesOn pid none w := fun _ h => by cases h

theorem Sound.goesOn {l : Loop} (h : Sound pid l w) : GoesOn pid (some l) w := by
  intro l' hl'
  cases hl'
  exact h

theorem sound_closed {l : Loop} (h : Holding pid (Upto l.next) w) (hsource : l.source = none) :
    Sound pid l w := by
  refine ⟨h, fun hs => ?_⟩
  rw [hsource] at hs
  cases hs

theorem wp_restart {cfg : WatchConfig} {retries : Nat} {l : Loop} :
    Wp pid (restart cfg retries l) (GoesOn pid) w := by
  refine Rely.wp_bind (Rely.wp_mono (wp_start retries) fun r w₁ h => ?_)
  obtain ⟨position, feed⟩ := r
  cases position with
  | none => exact goesOn_none
  | some n => exact (sound_closed (h n rfl) rfl).goesOn

theorem chainWasReset_quiet (feed : Feed) :
    (chainWasReset feed).Calls (fun o => o.isQuiet = true) := by
  unfold chainWasReset
  split
  · trivial
  · refine ⟨rfl, fun r => ?_⟩
    cases r with
    | none => trivial
    | some genesis => cases genesis <;> trivial

theorem nextBlockIsGone_quiet (error : BlockSourceError) (next : Nat) :
    (nextBlockIsGone error next).Calls (fun o => o.isQuiet = true) := by
  unfold nextBlockIsGone
  dsimp only
  split_ifs
  · refine ⟨rfl, fun r => ?_⟩
    cases r with
    | none => trivial
    | some tip =>
      by_cases htip : next ≤ tip
      · show Prog.Calls _ (if next ≤ tip then _ else _)
        rw [if_pos htip]
        exact ⟨rfl, fun _ => trivial⟩
      · show Prog.Calls _ (if next ≤ tip then _ else _)
        rw [if_neg htip]
        trivial
  · trivial

theorem wp_sourceFailed {retries : Nat} {error : BlockSourceError} {l : Loop}
    (hw : Holding pid (Upto l.next) w) : Wp pid (sourceFailed retries error l) (Sound pid) w := by
  refine wp_part (nextBlockIsGone_quiet error l.next) (stable_upto l.next) hw fun gone w₁ hw₁ => ?_
  cases gone with
  | false => exact sound_closed hw₁ rfl
  | true =>
    show Wp pid (goneConfirmed { l with source := none } >>= _) (Sound pid) w₁
    unfold goneConfirmed
    split
    · refine wp_ask rfl (stable_upto l.next) hw₁ fun confirmed w₂ hw₂ => ?_
      cases confirmed with
      | false => exact sound_closed hw₂ rfl
      | true =>
        refine Rely.wp_bind (Rely.wp_mono (wp_jumpPastUnavailable retries hw₂) fun next w₃ h => ?_)
        exact sound_closed h rfl
    · exact sound_closed hw₁ rfl

theorem wp_openSource {cfg : WatchConfig} {retries : Nat} {l : Loop}
    (hw : Holding pid (Upto l.next) w) : Wp pid (openSource cfg retries l) (GoesOn pid) w := by
  refine wp_ask rfl (stable_upto l.next) hw fun transport w₁ hw₁ => ?_
  refine wp_ask rfl (stable_upto l.next) hw₁ fun answer w₂ hw₂ => ?_
  cases answer with
  | cancelled => exact goesOn_none
  | opened =>
    refine Sound.goesOn ⟨hw₂, fun hs => ?_⟩
    cases hs
    rfl
  | failed error =>
    dsimp only
    split
    · exact wp_restart
    · exact Rely.wp_bind (Rely.wp_mono (wp_sourceFailed hw₂) fun _ _ h => h.goesOn)

theorem wp_reopen {cfg : WatchConfig} {retries : Nat} {l : Loop}
    (hw : Holding pid (Upto l.next) w) : Wp pid (reopen cfg retries l) (GoesOn pid) w := by
  refine wp_ask rfl (stable_upto l.next) hw fun stop w₁ hw₁ => ?_
  cases stop with
  | true => exact goesOn_none
  | false =>
    show Wp pid (if l.firstOpen then openSource cfg retries { l with firstOpen := false } else _)
      (GoesOn pid) w₁
    split
    · exact wp_openSource hw₁
    · refine wp_part (chainWasReset_quiet l.feed) (stable_upto l.next) hw₁ fun reset w₂ hw₂ => ?_
      cases reset with
      | false => exact wp_openSource hw₂
      | true =>
        refine Rely.wp_bind (Rely.wp_mono wp_restart fun r w₃ h => ?_)
        cases r with
        | none => exact goesOn_none
        | some l' => exact wp_openSource (h l' rfl).before

theorem wp_handleStall {cfg : WatchConfig} {retries : Nat} {l : Loop} (hw : Sound pid l w) :
    Wp pid (handleStall cfg retries l) (GoesOn pid) w := by
  refine wp_ask rfl (stable_upto l.next) hw.before fun tip w₁ hw₁ => ?_
  have hsame : Sound pid l w₁ := ⟨hw₁, hw.source⟩
  cases tip with
  | none => exact hsame.goesOn
  | some tip =>
    dsimp only
    split
    · exact wp_restart
    · split
      · exact (sound_closed (l := { l with source := none }) hw₁ rfl).goesOn
      · exact hsame.goesOn

/-- A block the source lets through is the next one. -/
theorem inSequence_block {expected : Nat} {message : Message} {block : ObservedBlock}
    (h : inSequence expected message = .block block) :
    message = .block block ∧ block.blockNum = expected := by
  cases message with
  | block b =>
    simp only [inSequence] at h
    split at h
    · next heq => cases h; exact ⟨rfl, heq⟩
    · cases h
  | _ => cases h

theorem wp_receive {cfg : WatchConfig} {retries : Nat} {transport : Transport} {expected : Nat}
    {l : Loop} (hw : Sound pid l w) (hsource : l.source = some (transport, expected)) :
    Wp pid (receive cfg retries transport expected l) (GoesOn pid) w := by
  have hexpected := hw.source hsource
  refine wp_ask rfl (stable_upto l.next) hw.before fun retry w₁ hw₁ => ?_
  cases retry with
  | true => exact (sound_closed (l := { l with source := none }) hw₁ rfl).goesOn
  | false =>
    refine wp_call rfl (stable_upto l.next) hw₁ fun ch message w₂ w₃ hx _ hw₃ => ?_
    cases hm : inSequence expected message with
    | cancelled => exact goesOn_none
    | block block =>
      obtain ⟨rfl, hnum⟩ := inSequence_block hm
      -- the delivery was noted with the moment it was made at
      have hdelivered : Holding pid (Delivered block w₂.moment) w₃ := by
        have halive := execAlive_of_exec hx
        cases ch <;> cases halive
        refine fun hl => ⟨?_, List.mem_cons_self, Nat.le_refl _⟩
        rw [hnum, hexpected]
        exact hw₃ hl
      refine Rely.wp_bind (Rely.wp_mono (wp_processUntilDone retries hdelivered)
        fun done w₄ h => ?_)
      cases done with
      | false => exact goesOn_none
      | true =>
        refine Sound.goesOn ⟨fun hl b hb => ?_, fun hs => ?_⟩
        · exact h rfl hl b (Nat.lt_of_lt_of_le hb (nextBlock_le _))
        · cases hs
          rw [hnum]
    | error error =>
      have hfailed : ∀ malformed, Wp pid (do
          return some (← sourceFailed retries error { l with malformed := malformed }))
          (GoesOn pid) w₃ := fun malformed =>
        Rely.wp_bind (Rely.wp_mono (wp_sourceFailed (l := { l with malformed := malformed }) hw₃)
          fun _ _ h => h.goesOn)
      dsimp only
      split
      · split
        · refine Rely.wp_bind (Rely.wp_mono (wp_skipMalformedBlock hw₃) fun next w₄ h => ?_)
          exact (sound_closed h rfl).goesOn
        · exact hfailed _
      · exact hfailed _
    | timedOut =>
      refine wp_ask rfl (stable_upto l.next) hw₃ fun due w₄ hw₄ => ?_
      have hsame : Sound pid l w₄ := ⟨hw₄, hw.source⟩
      cases due with
      | true => exact hsame.goesOn
      | false => exact wp_handleStall hsame

theorem wp_round {cfg : WatchConfig} {retries : Nat} {l : Loop} (hw : Sound pid l w) :
    Wp pid (round cfg retries l) (GoesOn pid) w := by
  unfold round
  split
  · exact wp_reopen hw.before
  · next hsource => exact wp_receive hw hsource

theorem wp_rounds {cfg : WatchConfig} {retries : Nat} (n : Nat) : ∀ {l : Loop} {w},
    Sound pid l w → Wp pid (rounds cfg retries n l) (fun _ _ => True) w := by
  induction n with
  | zero => exact fun _ => trivial
  | succ n ih =>
    intro l w hw
    refine Rely.wp_bind (Rely.wp_mono (wp_round hw) fun r w₁ h => ?_)
    cases r with
    | none => trivial
    | some l' => exact ih (h l' rfl)

theorem wp_run (watch : Watch) : Wp pid (run watch) (fun _ _ => True) w := by
  intro w₁ _ _
  refine ⟨trivial, fun ch acquired w₂ _ _ _ => ?_⟩
  cases acquired with
  | false => trivial
  | true =>
    show Wp pid (consume watch) (fun _ _ => True) w₂
    refine Rely.wp_bind (Rely.wp_mono (wp_start watch.retries) fun r w₃ h => ?_)
    obtain ⟨position, feed⟩ := r
    cases position with
    | none => trivial
    | some n => exact wp_rounds watch.rounds (sound_closed (h n rfl) rfl)

end Consumer

/-! ## In every run -/

variable {backend : Backend} {accounts : Accounts}

/-- Every block up to the cursor was processed whole, or a walk was asked for
after it was skipped. -/
theorem skipped_blocks_are_owed_a_walk {c : WatchConf} (h : WatchReachable backend accounts c)
    {cursor : Cursor} (hcursor : c.world.cursor = some cursor) {b : Nat}
    (hb : b ≤ cursor.lastBlock) : Accounted observableMove c.world b := by
  have h0 : watching.inv (World.start backend accounts) := fun _ hc => by cases hc
  obtain ⟨hinv, -⟩ := Rely.reach watching_kept (fun _ _ => trivial) h0
    (fun {_ _ req} _ _ _ _ => Consumer.wp_run req) h
  exact hinv cursor hcursor b hb

namespace Demo

/-- One guarded account, in a state. -/
def accountsAt (stateCommitment : Option Commitment) : Accounts := fun id =>
  if id = "account" then ⟨true, false, stateCommitment, [], []⟩ else ⟨false, false, none, [], []⟩

def watch : Consumer.Watch := ⟨⟨.poll, 100⟩, false, 3, 10⟩

/-- A first start at the tip, and its first block, which moved the account. -/
def moved : ObservedBlock := ⟨5, [⟨"account", "moved"⟩], 0⟩

/-- The start, up to the block. -/
def started : List (Event Consumer.Watch Choice Act) :=
  .spawn 0 watch :: [.flag true, .done, .tip (some 5), .genesis (some (some "g")), .flag false,
    .done, .done, .flag false, .transport .poll, .source .opened, .flag false,
    .message (.block moved), .done, .done].map (.run 0)

end Demo

theorem skipped_blocks_are_owed_a_walk_at_block_five :
    ∃ c, WatchReachable .postgres (Demo.accountsAt (some "stored")) c ∧
      c.world.cursor = some ⟨5, some "g"⟩ ∧ Accounted observableMove c.world 5 ∧
      Accounted observableMove c.world 4 := by
  have htest : (runEvents machine Consumer.run Guard.any
      (.start (World.start .postgres (Demo.accountsAt (some "stored"))))
      (Demo.started ++ [.done, .done, .done].map (.run 0))).any
        (fun c => c.world.cursor == some ⟨5, some "g"⟩) = true := by decide +kernel
  obtain ⟨c, hrun, hcursor⟩ := (Option.any_eq_true ..).mp htest
  have hr : WatchReachable .postgres (Demo.accountsAt (some "stored")) c :=
    Reach.init.runEvents hrun
  have hc : c.world.cursor = some ⟨5, some "g"⟩ := by simpa using hcursor
  exact ⟨c, hr, hc, skipped_blocks_are_owed_a_walk hr hc (Nat.le_refl 5),
    skipped_blocks_are_owed_a_walk hr hc (by decide)⟩

/-- Of a guarded account without a stored state no move is recorded, and the
cursor goes on. -/
theorem unfinished_account_unobserved :
    ¬ ∀ {backend accounts} {c : WatchConf}, WatchReachable backend accounts c →
      ∀ {cursor : Cursor}, c.world.cursor = some cursor → ∀ {b : Nat}, b ≤ cursor.lastBlock →
        Accounted unexplainedMove c.world b := by
  intro hclaim
  have htest : (runEvents machine Consumer.run Guard.any
      (.start (World.start .postgres (Demo.accountsAt none)))
      (Demo.started ++ [.run 0 .done])).map Conf.world =
        some { World.start .postgres (Demo.accountsAt none) with
          lease := some 0
          cursor := some ⟨5, some "g"⟩
          walks := some ⟨1, 0⟩
          log := [.delivered Demo.moved 0, .requested, .skipped 0 5] } := rfl
  obtain ⟨c, hrun, hworld⟩ := Option.map_eq_some_iff.mp htest
  have hr : WatchReachable .postgres (Demo.accountsAt none) c := Reach.init.runEvents hrun
  have hcursor : c.world.cursor = some ⟨5, some "g"⟩ := by rw [hworld]
  have h := hclaim hr hcursor (Nat.le_refl 5)
  rw [hworld] at h
  obtain ⟨block, delivered, until_, hmem, -, -, hle, hall⟩ | howed | ⟨n, hn, -⟩ := h
  · -- the block was processed, and its one move was not recorded
    have hblock : block = Demo.moved ∧ delivered = 0 := by simpa using hmem
    obtain ⟨rfl, rfl⟩ := hblock
    have hrecorded := hall ⟨"account", "moved"⟩ (List.mem_singleton.mpr rfl) ?_
    · simp at hrecorded
    · intro i accounts _ hi htable
      obtain rfl : i = 0 := Nat.le_zero.mp (Nat.le_trans hi hle)
      cases htable
      decide
  · -- it came after the blocks the walk stands for
    obtain ⟨first, past, hmem, -, hlt⟩ | howed := howed
    · have hrange : first = 0 ∧ past = 5 := by simpa using hmem
      omega
    · exact howed
  · cases hn

end Guardian.BlockWatch
