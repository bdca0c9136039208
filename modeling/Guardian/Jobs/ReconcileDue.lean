import Guardian.Calls
import Guardian.Jobs.ReconcileRotation
import Guardian.System

/- How often a recoverable account is probed (`reconcile_due` with
   `process_reconcile_pass`).

   A pass visits a page of the accounts, and of these probes the ones whose youngest
   recoverable row has an age due for it: an age less than one interval past a multiple
   of the backoff. Both come around, the page with the passes and the due ages with the
   clock, but nothing makes them meet: an account visited every second minute, an odd
   number of minutes after its row was parked, is due only in passes that do not visit
   it (`due_unvisited`). Where one page holds all accounts it is probed within 600
   seconds and an interval. Elsewhere whether it is probed in time is arithmetic in the
   number of accounts, the page size, the interval, the age at the first pass and the
   account's distance from the first page (`probed_in_time`). -/
namespace Guardian.Reconcile

open Interleaving Service Processor

/-! ## Due ages -/

theorem backoff_cases {age : Nat} (h : 900 ≤ age) :
    (age < 1800 ∧ reconcileBackoffSeconds age = 120) ∨
    (1800 ≤ age ∧ age < 2700 ∧ reconcileBackoffSeconds age = 240) ∨
    (2700 ≤ age ∧ age < 3600 ∧ reconcileBackoffSeconds age = 480) ∨
    (3600 ≤ age ∧ reconcileBackoffSeconds age = 600) := by
  have hwarm : ¬ age < reconcileWarmPeriodSeconds := by
    rw [reconcileWarmPeriodSeconds]
    omega
  rw [reconcileBackoffSeconds, if_neg hwarm]
  simp only [reconcileBackoffBaseSeconds, reconcileMaxBackoffSeconds, reconcileWarmPeriodSeconds]
  by_cases h2 : age < 1800
  · have hdiv : age / 900 = 1 := by omega
    rw [hdiv]
    exact .inl ⟨h2, rfl⟩
  · by_cases h3 : age < 2700
    · have hdiv : age / 900 = 2 := by omega
      rw [hdiv]
      exact .inr (.inl ⟨by omega, h3, rfl⟩)
    · by_cases h4 : age < 3600
      · have hdiv : age / 900 = 3 := by omega
        rw [hdiv]
        exact .inr (.inr (.inl ⟨by omega, h4, rfl⟩))
      · have hdoublings : 4 ≤ min (age / 900) 32 := by omega
        have hpow : 2 ^ 4 ≤ 2 ^ min (age / 900) 32 := Nat.pow_le_pow_right (by decide) hdoublings
        exact .inr (.inr (.inr ⟨by omega, by omega⟩))

theorem due_of_mod {age interval : Nat} (h : age % reconcileBackoffSeconds age < interval) :
    reconcileDue age interval = true := by
  rw [reconcileDue, Bool.or_eq_true, decide_eq_true_eq]
  exact .inr (Nat.lt_of_lt_of_le h (Nat.le_max_left _ _))

/-- Ages from which a whole interval is due, never more than 600 seconds apart: the
    multiples of 480 up to 3360, and from then on those of 600. -/
theorem due_from {age interval : Nat} (hage : 900 ≤ age) (hinterval : interval ≤ 600) :
    ∃ grid, age ≤ grid ∧ grid < age + 600 ∧
      ∀ x, grid ≤ x → x < grid + interval → reconcileDue x interval = true := by
  by_cases hearly : age ≤ 3360
  · refine ⟨(age + 479) / 480 * 480, by omega, by omega, ?_⟩
    intro x hx hx'
    apply due_of_mod
    -- where the backoff is a divisor of 480, or the age is past the last of these points
    obtain ⟨_, hb⟩ | ⟨_, _, hb⟩ | ⟨_, _, hb⟩ | ⟨_, hb⟩ := backoff_cases (by omega : 900 ≤ x) <;>
      rw [hb] <;> omega
  · refine ⟨(age + 599) / 600 * 600, by omega, by omega, ?_⟩
    intro x hx hx'
    apply due_of_mod
    obtain ⟨_, hb⟩ | ⟨_, _, hb⟩ | ⟨_, _, hb⟩ | ⟨_, hb⟩ := backoff_cases (by omega : 900 ≤ x) <;>
      rw [hb] <;> omega

/-- Passes an interval apart: one of them is in the interval after any age. -/
theorem pass_in_interval {first grid interval : Nat} (hinterval : 0 < interval)
    (h : first ≤ grid) :
    ∃ j, grid ≤ first + j * interval ∧ first + j * interval < grid + interval := by
  refine ⟨(grid - first + (interval - 1)) / interval, ?_, ?_⟩
  · have hlow := Nat.lt_div_mul_add hinterval (a := grid - first + (interval - 1))
    omega
  · have hhigh := Nat.div_mul_le_self (grid - first + (interval - 1)) interval
    omega

/-! ## The probe of one pass -/

section Probe

variable {ε α β : Type} {answer : (o : Op) → Res o} {o : Op}

theorem mem_made_bind {x : Proc ε α} {f : α → Proc ε β} {a : α} (hx : x.run.eval answer = .ok a)
    (h : o ∈ (f a).run.made answer) : o ∈ (x >>= f).run.made answer := by
  rw [made_run_bind, hx]
  exact List.mem_append_right _ h

theorem eval_orFail {x : Proc ε (Option α)} {a : α} {e : ε} (h : x.run.eval answer = .ok (some a)) :
    (orFail x e).run.eval answer = .ok a := by
  rw [orFail, eval_run_bind, h]
  rfl

theorem eval_deleteMatchingProposal (answer : (o : Op) → Res o) (net : Network)
    (delta : DeltaObject) :
    ∃ cleaned, (deleteMatchingProposal net delta).run.eval answer = .ok cleaned := by
  rw [deleteMatchingProposal]
  split
  next => exact ⟨_, rfl⟩
  next id _ =>
    have hread : (query (.pullDeltaProposal id) : Service _).run.eval answer =
        .ok (answer (.query (.pullDeltaProposal id))) := rfl
    rw [eval_run_bind, hread]
    dsimp only
    split <;> exact ⟨_, rfl⟩

theorem eval_cleanUpProposals (net : Network) (live : List Recoverable) :
    (cleanUpProposals net live).run.eval answer = .ok () := by
  induction live with
  | nil => rfl
  | cons row rows ih =>
    rw [cleanUpProposals]
    split
    next =>
      obtain ⟨cleaned, hcleaned⟩ := eval_deleteMatchingProposal answer net row.delta
      rw [eval_run_bind, hcleaned]
      exact ih
    next => exact ih

/-- A call that is not for a node. -/
def Local (o : Op) : Prop := ∀ n, o ≠ .node n

theorem makes_read (q : Query) : Makes Local (orFail (query q) GuardianError.storageError) :=
  makes_orFail (Makes.op' nofun)

theorem makes_deleteMatchingProposal (net : Network) (delta : DeltaObject) :
    Makes Local (deleteMatchingProposal net delta) := by
  rw [deleteMatchingProposal]
  split
  next => exact makes_pure _
  next id _ =>
    refine Makes.bind' (Makes.op' nofun) fun proposal => ?_
    split
    · exact Makes.bind' (makes_write nofun) fun _ => makes_pure _
    · exact makes_pure _
    · exact makes_pure _

theorem makes_removeDelta (net : Network) (fence : LeaseFence) (delta : DeltaObject)
    (kind : DeltaStatusKind) : Makes Local (removeDelta net fence delta kind) := by
  rw [removeDelta]
  refine Makes.bind' (makes_orFail (makes_fenced nofun nofun)) fun outcome => ?_
  split
  · exact (makes_deleteMatchingProposal net delta).bind' fun _ => makes_pure _
  · exact makes_pure _

theorem makes_expireRecoverable (net : Network) (cfg : Config) (fence : LeaseFence) (now : Time)
    (firstError : Option GuardianError) (rows : List DeltaObject) :
    Makes Local (expireRecoverable net cfg fence now firstError rows) := by
  induction rows generalizing firstError with
  | nil => exact makes_pure _
  | cons delta rest ih =>
    rw [expireRecoverable]
    dsimp only
    split
    · split
      · exact ih _
      · refine Makes.bind' (makes_absorb (makes_removeDelta net fence delta _)) fun outcome => ?_
        split
        · exact makes_fail _
        · exact ih _
        · exact ih _
    · exact (ih _).bind' fun _ => makes_pure _

/-- A node is asked after a part that asks none. -/
theorem node_mem_made {n : NodeCall} {x : Proc ε α} {f : α → Proc ε β} {a : α}
    (hlocal : Makes Local x) (hx : x.run.eval answer = .ok a)
    (h : .node n ∈ (x >>= f).run.made answer) : .node n ∈ (f a).run.made answer := by
  rw [made_run_bind, hx] at h
  rcases List.mem_append.mp h with h | h
  · exact absurd rfl (Prog.Calls.made hlocal h n)
  · exact h

end Probe

/-- What a pass over an account without a queued candidate is answered: its reads
    succeed, and the rows still within retention are `live`. -/
structure Answered (net : Network) (cfg : Config) (fence : LeaseFence) (answer : (o : Op) → Res o)
    (now : Time) (live : List Recoverable) : Prop where
  admitted : answer .flag = false
  clock : answer .now = now
  noCandidate : answer (.query (.pullCandidateDeltas false)) = some []
  state : ∃ state, answer (.query .pullState) = some (some state)
  rows : ∃ recoverable superseded rows error,
    answer (.query (.pullRecoverableDeltas (abandonedCutoff cfg now))) = some recoverable ∧
    answer (.query (.pullSupersededDeltas (abandonedCutoff cfg now))) = some superseded ∧
    (expireRecoverable net cfg fence now none recoverable).run.eval answer = .ok (rows, error) ∧
    live = rows ++ superseded.map fun a => ⟨now - a.supersededAt, a.delta, .superseded⟩

/-- The pass asks a node for the account's commitment. -/
def Probes (net : Network) (cfg : Config) (fence : LeaseFence) (interval : Nat)
    (answer : (o : Op) → Res o) : Prop :=
  ∃ expected, Op.node (.verifyCommitment expected .singleAttempt) ∈
    (processReconcilePass net cfg fence (some interval)).run.made answer

section Answered

variable {net : Network} {cfg : Config} {fence : LeaseFence} {answer : (o : Op) → Res o}
  {now : Time} {live : List Recoverable} {age interval : Nat}

theorem eval_read {q : Query} {a : q.Answer} (h : answer (.query q) = some a) :
    (orFail (query q) GuardianError.storageError).run.eval answer = .ok a :=
  eval_orFail (congrArg Except.ok h)

/-- A pass that finds the account due probes it. -/
theorem probes_of_due (h : Answered net cfg fence answer now live)
    (hage : (live.map (·.ageSeconds)).min? = some age) (hdue : reconcileDue age interval = true) :
    Probes net cfg fence interval answer := by
  obtain ⟨state, hstate⟩ := h.state
  obtain ⟨recoverable, superseded, rows, error, hrecoverable, hsuperseded, hexpired, rfl⟩ := h.rows
  refine ⟨state.commitment, ?_⟩
  have hpull : (pullState GuardianError.storageError).run.eval answer = .ok state := by
    rw [pullState, eval_run_bind, eval_read hstate]
    rfl
  -- the calls in the order the pass makes them, up to the probe
  rw [processReconcilePass]
  refine mem_made_bind (congrArg Except.ok h.admitted) ?_
  rw [if_neg (by decide), made_run_bind, made_absorb]
  refine List.mem_append_left _ ?_
  rw [reconcileAccount]
  refine mem_made_bind (eval_read h.noCandidate) ?_
  rw [if_neg (by decide)]
  refine mem_made_bind (congrArg Except.ok h.clock) ?_
  refine mem_made_bind (eval_read hrecoverable) ?_
  refine mem_made_bind rfl ?_
  refine mem_made_bind (eval_read hsuperseded) ?_
  refine mem_made_bind hexpired ?_
  have hprobe : ¬ Option.any (fun i => !reconcileDue age i) (some interval) = true := by
    rw [Option.any_some, hdue]
    decide
  dsimp only
  rw [hage]
  dsimp only
  rw [if_neg hprobe]
  refine mem_made_bind (eval_cleanUpProposals net _) ?_
  refine mem_made_bind hpull ?_
  rw [made_run_bind]
  exact List.mem_append_left _ (List.mem_singleton_self _)

/-- A pass that probes the account found it due. -/
theorem due_of_probes (h : Answered net cfg fence answer now live)
    (hage : (live.map (·.ageSeconds)).min? = some age) (hprobes : Probes net cfg fence interval answer) :
    reconcileDue age interval = true := by
  obtain ⟨recoverable, superseded, rows, error, hrecoverable, hsuperseded, hexpired, rfl⟩ := h.rows
  obtain ⟨expected, hmem⟩ := hprobes
  by_contra hdue
  have hskip : Option.any (fun i => !reconcileDue age i) (some interval) = true := by
    rw [Option.any_some, Bool.eq_false_of_not_eq_true hdue]
    rfl
  -- no call before the due check asks the node, so the probe would come behind it
  have hflag : Makes Local (flag : Service Bool) := Makes.op' nofun
  have hnow : Makes Local (Service.now : Service Time) := Makes.op' nofun
  rw [processReconcilePass] at hmem
  have hmem := node_mem_made hflag (congrArg Except.ok h.admitted) hmem
  rw [if_neg (by decide), made_run_bind, made_absorb, eval_absorb] at hmem
  have hmem := (List.mem_append.mp hmem).resolve_right List.not_mem_nil
  rw [reconcileAccount] at hmem
  have hmem := node_mem_made (makes_read _) (eval_read h.noCandidate) hmem
  rw [if_neg (by decide)] at hmem
  have hmem := node_mem_made hnow (congrArg Except.ok h.clock) hmem
  have hmem := node_mem_made (makes_read _) (eval_read hrecoverable) hmem
  have hmem := node_mem_made (makes_write nofun) rfl hmem
  have hmem := node_mem_made (makes_read _) (eval_read hsuperseded) hmem
  have hmem := node_mem_made (makes_expireRecoverable net cfg fence now none recoverable)
    hexpired hmem
  dsimp only at hmem
  rw [hage] at hmem
  dsimp only at hmem
  rw [if_pos hskip] at hmem
  cases error <;> cases hmem

end Answered

/-! ## Passes over time -/

/-- Passes every `interval` seconds, none cut short, over accounts one of which has no
    queued candidate and a youngest recoverable row parked at `parkedAt`. -/
structure Watch (net : Network) (cfg : Config) (fence : LeaseFence) (accounts : Finset String)
    (account : String) (pageSize interval : Nat) where
  passes : Passes accounts pageSize pageSize
  parkedAt : Time
  firstAge : Nat
  answer : Nat → (o : Op) → Res o
  live : Nat → List Recoverable
  mem : account ∈ accounts
  answered : ∀ j, firstAge + j * interval < cfg.retainedTtlSeconds →
    Answered net cfg fence (answer j) (parkedAt + (firstAge + j * interval)) (live j)
  youngest : ∀ j, firstAge + j * interval < cfg.retainedTtlSeconds →
    ((live j).map (·.ageSeconds)).min? = some (firstAge + j * interval)

section Watch

variable {net : Network} {cfg : Config} {fence : LeaseFence} {accounts : Finset String}
  {account : String} {pageSize interval : Nat}

/-- The age of the row at a pass. -/
def Watch.age (watch : Watch net cfg fence accounts account pageSize interval) (j : Nat) : Nat :=
  watch.firstAge + j * interval

/-- The page of a pass. -/
def Watch.page (watch : Watch net cfg fence accounts account pageSize interval) (j : Nat) :
    List String :=
  (passPage pageSize (watch.passes.listed j) (watch.passes.cursor j)).1

/-- The pass attempts the account, and asks a node for its commitment. -/
def Watch.Probed (watch : Watch net cfg fence accounts account pageSize interval) (j : Nat) : Prop :=
  account ∈ watch.passes.attempted j ∧ Probes net cfg fence interval (watch.answer j)

/-- How far the account lies behind the beginning of the first pass's page. -/
def Watch.offset (watch : Watch net cfg fence accounts account pageSize interval) : Nat :=
  let ids := sortedIds (watch.passes.listed 0)
  (ids.idxOf account + (accounts.card - Rotation.start ids (watch.passes.cursor 0))) % accounts.card

theorem Watch.offset_eq (watch : Watch net cfg fence accounts account pageSize interval) :
    watch.offset = (accounts.sort.idxOf account +
      (accounts.card - Rotation.start accounts.sort (watch.passes.cursor 0))) % accounts.card := by
  unfold Watch.offset
  rw [sortedIds_eq (watch.passes.lists 0)]

/-- `600 + 2 * (⌈n / p⌉ + 1) * i` seconds. -/
def window (n pageSize interval : Nat) : Nat :=
  600 + 2 * ((n + pageSize - 1) / pageSize + 1) * interval

/-- Past the warm period, and until the retention ends, the account is probed in every
    window. -/
def Watch.ProbedInTime (watch : Watch net cfg fence accounts account pageSize interval) : Prop :=
  ∀ age, reconcileWarmPeriodSeconds ≤ age → watch.firstAge ≤ age →
    age + window accounts.card pageSize interval ≤ cfg.retainedTtlSeconds →
    ∃ j, age ≤ watch.age j ∧ watch.age j < age + window accounts.card pageSize interval ∧
      watch.Probed j

/-- The rotation has come to an account: pass `j` begins `j * pageSize` accounts after
    the first. -/
def Comes (n pageSize offset j : Nat) : Prop :=
  n ≤ pageSize ∨ (offset + (n - j * pageSize % n)) % n < pageSize

instance (n pageSize offset j : Nat) : Decidable (Comes n pageSize offset j) :=
  inferInstanceAs (Decidable (n ≤ pageSize ∨ (offset + (n - j * pageSize % n)) % n < pageSize))

/-- In the window from an age on, a pass comes to the account at a due age. -/
def Meets (n pageSize interval offset firstAge age : Nat) : Prop :=
  ∃ j < age + window n pageSize interval, age ≤ firstAge + j * interval ∧
    firstAge + j * interval < age + window n pageSize interval ∧
    Comes n pageSize offset j ∧ reconcileDue (firstAge + j * interval) interval = true

instance (n pageSize interval offset firstAge age : Nat) :
    Decidable (Meets n pageSize interval offset firstAge age) :=
  inferInstanceAs (Decidable (∃ j < age + window n pageSize interval,
    age ≤ firstAge + j * interval ∧ firstAge + j * interval < age + window n pageSize interval ∧
    Comes n pageSize offset j ∧ reconcileDue (firstAge + j * interval) interval = true))

/-- The rotation keeps in step with the due ages: one page holds all accounts, or they
    meet in every window. -/
def InStep (n pageSize interval offset firstAge ttl : Nat) : Prop :=
  n ≤ pageSize ∨ ∀ age < ttl, reconcileWarmPeriodSeconds ≤ age → firstAge ≤ age →
    age + window n pageSize interval ≤ ttl → Meets n pageSize interval offset firstAge age

instance (n pageSize interval offset firstAge ttl : Nat) :
    Decidable (InStep n pageSize interval offset firstAge ttl) :=
  inferInstanceAs (Decidable (n ≤ pageSize ∨ ∀ age < ttl, reconcileWarmPeriodSeconds ≤ age →
    firstAge ≤ age → age + window n pageSize interval ≤ ttl →
    Meets n pageSize interval offset firstAge age))

/-- A pass that is not cut attempts its page. -/
theorem Watch.attempted (watch : Watch net cfg fence accounts account pageSize interval) {j : Nat}
    (h : account ∈ watch.page j) (hp : 1 ≤ pageSize) : account ∈ watch.passes.attempted j := by
  apply watch.passes.enough
  have hpage : watch.page j = Rotation.page pageSize accounts.sort (watch.passes.cursor j) := by
    rw [Watch.page, passPage_eq (watch.passes.lists j) ⟨account, watch.mem⟩ hp]
  have hlen : (watch.page j).length ≤ pageSize := by
    rw [hpage, Rotation.length_page]
    exact Nat.min_le_left _ _
  show account ∈ (watch.page j).take pageSize
  rw [List.take_of_length_le hlen]
  exact h

/-- Where one page holds all accounts it holds each of them. -/
theorem Watch.mem_page (watch : Watch net cfg fence accounts account pageSize interval)
    (hp : 1 ≤ pageSize) (hwhole : accounts.card ≤ pageSize) (j : Nat) : account ∈ watch.page j := by
  have hlen : (accounts.sort.rotate
      (Rotation.start accounts.sort (watch.passes.cursor j))).length ≤ pageSize := by
    rw [List.length_rotate, Finset.length_sort]
    exact hwhole
  rw [Watch.page, passPage_eq (watch.passes.lists j) ⟨account, watch.mem⟩ hp, Rotation.page,
    List.take_of_length_le hlen, List.mem_rotate, Finset.mem_sort]
  exact watch.mem

/-- The account is on a page exactly where the rotation has come to it. -/
theorem Watch.mem_page_iff (watch : Watch net cfg fence accounts account pageSize interval)
    (hp : 1 ≤ pageSize) (j : Nat) :
    account ∈ watch.page j ↔ Comes accounts.card pageSize watch.offset j := by
  by_cases hwhole : accounts.card ≤ pageSize
  · exact ⟨fun _ => .inl hwhole, fun _ => watch.mem_page hp hwhole j⟩
  have hlen : accounts.sort.length = accounts.card := Finset.length_sort _
  have hmem : account ∈ accounts.sort := (Finset.mem_sort _).mpr watch.mem
  have hi : accounts.sort.idxOf account < accounts.sort.length := List.idxOf_lt_length_of_mem hmem
  have hne : accounts.sort ≠ [] := List.ne_nil_of_mem hmem
  have hturn := Rotation.start_iterate (Finset.sortedLT_sort accounts).pairwise hp (by omega)
    (fun j => watch.passes.next ⟨account, watch.mem⟩ hp j) 0 j
  have hfirst := Rotation.start_lt hne (watch.passes.cursor 0)
  have hstart := Rotation.start_lt hne (watch.passes.cursor j)
  have hpage : account ∈ watch.page j ↔
      (accounts.sort.idxOf account +
        (accounts.card - Rotation.start accounts.sort (watch.passes.cursor j))) % accounts.card <
          pageSize := by
    have hat := Rotation.mem_take_rotate (k := pageSize) (Finset.sort_nodup accounts (· ≤ ·)) hstart hi
    rw [List.getElem_idxOf, hlen] at hat
    rw [Watch.page, passPage_eq (watch.passes.lists j) ⟨account, watch.mem⟩ hp, Rotation.page]
    exact hat
  rw [Nat.zero_add, hlen] at hturn
  rw [hlen] at hfirst
  have hpos : 0 < accounts.card := Nat.zero_lt_of_lt hfirst
  rw [hpage, hturn, ← Nat.add_mod_mod (Rotation.start _ _), offset_shift hfirst (Nat.mod_lt _ hpos),
    Comes, Watch.offset_eq]
  exact ⟨.inr, fun h => h.resolve_left hwhole⟩

/-- An account is probed by the passes that come to it at a due age. -/
theorem Watch.probed_iff (watch : Watch net cfg fence accounts account pageSize interval)
    (hp : 1 ≤ pageSize) {j : Nat} (hlive : watch.age j < cfg.retainedTtlSeconds) :
    watch.Probed j ↔ Comes accounts.card pageSize watch.offset j ∧
      reconcileDue (watch.age j) interval = true := by
  rw [← watch.mem_page_iff hp]
  have hanswered := watch.answered j hlive
  have hyoungest := watch.youngest j hlive
  constructor
  · rintro ⟨hattempted, hprobes⟩
    exact ⟨watch.passes.within j account hattempted, due_of_probes hanswered hyoungest hprobes⟩
  · rintro ⟨hpage, hdue⟩
    exact ⟨watch.attempted hpage hp, probes_of_due hanswered hyoungest hdue⟩

/-- Within 600 seconds and an interval of an age a pass finds the row due. -/
theorem due_pass {first age interval : Nat} (hpos : 1 ≤ interval) (hmax : interval ≤ 600)
    (hwarm : reconcileWarmPeriodSeconds ≤ age) (hfirst : first ≤ age) :
    ∃ j, age ≤ first + j * interval ∧ first + j * interval < age + 600 + interval ∧
      reconcileDue (first + j * interval) interval = true := by
  obtain ⟨grid, hgrid, hnear, hdue⟩ := due_from hwarm hmax
  obtain ⟨j, hlow, hhigh⟩ := pass_in_interval hpos (Nat.le_trans hfirst hgrid)
  exact ⟨j, Nat.le_trans hgrid hlow, by omega, hdue _ hlow hhigh⟩

theorem le_window (n pageSize interval : Nat) : 600 + interval ≤ window n pageSize interval := by
  have hslack : interval ≤ 2 * ((n + pageSize - 1) / pageSize + 1) * interval :=
    Nat.le_mul_of_pos_left _ (Nat.mul_pos (by decide) (Nat.succ_pos _))
  rw [window]
  omega

/-- The account is probed in time exactly where the rotation keeps in step with the due
    ages: all accounts are on one page, or in every window it comes to the account at a
    due age. -/
theorem probed_in_time (watch : Watch net cfg fence accounts account pageSize interval)
    (hp : 1 ≤ pageSize) (hpos : 1 ≤ interval) (hmax : interval ≤ 600) :
    watch.ProbedInTime ↔ InStep accounts.card pageSize interval watch.offset watch.firstAge
      cfg.retainedTtlSeconds := by
  have hprobed : ∀ {age j}, age + window accounts.card pageSize interval ≤ cfg.retainedTtlSeconds →
      watch.age j < age + window accounts.card pageSize interval →
      (watch.Probed j ↔ Comes accounts.card pageSize watch.offset j ∧
        reconcileDue (watch.age j) interval = true) := fun httl hj =>
    watch.probed_iff hp (Nat.lt_of_lt_of_le hj httl)
  constructor
  · intro h
    refine .inr fun age _ hwarm hfirst httl => ?_
    obtain ⟨j, hlow, hhigh, hj⟩ := h age hwarm hfirst httl
    refine ⟨j, ?_, hlow, hhigh, (hprobed httl hhigh).mp hj⟩
    have hsteps : j ≤ j * interval := Nat.le_mul_of_pos_right _ hpos
    have hage : watch.age j = watch.firstAge + j * interval := rfl
    omega
  · rintro (hwhole | hstep) age hwarm hfirst httl
    · -- every pass visits the account: the next one at a due age probes it
      obtain ⟨j, hlow, hhigh, hdue⟩ := due_pass hpos hmax hwarm hfirst
      have hwindow := le_window accounts.card pageSize interval
      have hj : watch.age j < age + window accounts.card pageSize interval :=
        Nat.lt_of_lt_of_le hhigh (by omega)
      exact ⟨j, hlow, hj, (hprobed httl hj).mpr ⟨.inl hwhole, hdue⟩⟩
    · have hwindow := le_window accounts.card pageSize interval
      obtain ⟨j, -, hlow, hhigh, hj⟩ := hstep age (by omega) hwarm hfirst httl
      exact ⟨j, hlow, hhigh, (hprobed httl hhigh).mpr hj⟩

end Watch

/-! ## Two accounts in turn -/

/-- A row parked at the start of time. -/
def parkedRow : DeltaObject := ⟨1, "s", some "sa", "a", .retained 0 none⟩

/-- An account at its first state whose only row is parked, at a later time. -/
def parkedAnswers (now : Time) : (o : Op) → Res o
  | .query (.pullCandidateDeltas _) => some []
  | .query (.pullRecoverableDeltas _) => some [parkedRow]
  | .query (.pullSupersededDeltas _) => some []
  | .query .pullState => some (some ⟨"s", "s", some 0⟩)
  | .query _ => none
  | .write _ => none
  | .begin _ => ()
  | .commit _ => none
  | .lease _ => none
  | .node _ => none
  | .now => now
  | .flag => false
  | .returns => ()

/-- A day of retention. -/
def dayConfig : Config := { Demo.config with retainedTtlSeconds := 86400 }

def workerFence : LeaseFence := ⟨"canonicalization", "worker", 1⟩

theorem eval_parked {now : Time} (h : now < 86400) :
    (expireRecoverable (.letters 0) dayConfig workerFence now none [parkedRow]).run.eval
      (parkedAnswers now) = .ok ([⟨now, parkedRow, .retained⟩], none) := by
  have hlive : ¬ dayConfig.retainedTtlSeconds ≤ now - parkedRow.status.timestamp :=
    Nat.not_le.mpr h
  rw [expireRecoverable]
  dsimp only
  rw [if_neg hlive]
  rfl

theorem answered_parked {now : Time} (h : now < 86400) :
    Answered (.letters 0) dayConfig workerFence (parkedAnswers now) now
      [⟨now, parkedRow, .retained⟩] where
  admitted := rfl
  clock := rfl
  noCandidate := rfl
  state := ⟨_, rfl⟩
  rows := ⟨_, [], _, none, rfl, rfl, eval_parked h, rfl⟩

/-- The row is watched from an age on, the passes starting without a cursor. -/
def parkedWatch (accounts : Finset String) (account : String) (pageSize interval firstAge : Nat)
    (h : account ∈ accounts) :
    Watch (.letters 0) dayConfig workerFence accounts account pageSize interval where
  passes := shortest accounts pageSize pageSize
  parkedAt := 0
  firstAge := firstAge
  answer j := parkedAnswers (0 + (firstAge + j * interval))
  live j := [⟨0 + (firstAge + j * interval), parkedRow, .retained⟩]
  mem := h
  answered j hlive := answered_parked (by rw [Nat.zero_add]; exact hlive)
  youngest j _ := by
    rw [List.map_singleton, List.min?_singleton, Nat.zero_add]

theorem sort_pair : ({"a", "b"} : Finset String).sort = ["a", "b"] := by
  have hsorted : ["a", "b"].Pairwise (· ≤ ·) := by decide
  have hlist : ({"a", "b"} : Finset String) = ["a", "b"].toFinset := by decide
  rw [hlist]
  exact (List.toFinset_sort (· ≤ ·) (by decide)).mpr hsorted

/-- The second of two accounts, each on a page of its own. -/
def secondWatch (interval firstAge : Nat) :
    Watch (.letters 0) dayConfig workerFence {"a", "b"} "b" 1 interval :=
  parkedWatch {"a", "b"} "b" 1 interval firstAge (by decide)

theorem secondWatch_offset (interval firstAge : Nat) : (secondWatch interval firstAge).offset = 1 := by
  have hnone : (secondWatch interval firstAge).passes.cursor 0 = none := rfl
  have hcard : ({"a", "b"} : Finset String).card = 2 := by decide
  rw [Watch.offset_eq, hnone, sort_pair, hcard, Rotation.start]
  decide

/-- An account on the only page, and the second of two accounts where a pass is as long
    as the longest backoff. -/
theorem probed_in_time_alone :
    (parkedWatch {"a"} "a" 1 60 900 (by decide)).ProbedInTime ∧
    (secondWatch 600 900).ProbedInTime := by
  constructor
  · exact (probed_in_time _ (by decide) (by decide) (by decide)).mpr (.inl (by decide))
  refine (probed_in_time _ (by decide) (by decide) (by decide)).mpr (.inr ?_)
  rw [secondWatch_offset]
  intro age _ hwarm _ _
  have hcard : ({"a", "b"} : Finset String).card = 2 := by decide
  have hfirst : (secondWatch 600 900).firstAge = 900 := rfl
  have hwindow : window 2 1 600 = 4200 := by decide
  rw [hcard, hfirst, Meets, hwindow]
  have hwarm : 900 ≤ age := hwarm
  -- the odd passes come to it, and every age is due
  refine ⟨2 * ((age - 900 + 1199) / 1200) + 1, by omega, by omega, by omega, .inr (by omega), ?_⟩
  apply due_of_mod
  obtain ⟨_, hb⟩ | ⟨_, _, hb⟩ | ⟨_, _, hb⟩ | ⟨_, hb⟩ := backoff_cases
    (by omega : 900 ≤ 900 + (2 * ((age - 900 + 1199) / 1200) + 1) * 600) <;> rw [hb] <;> omega

/-- Visited at odd minutes of its age, and due only in the minute after a multiple of
    ten: the second account is never probed. -/
theorem due_unvisited :
    ¬ ∀ watch : Watch (.letters 0) dayConfig workerFence {"a", "b"} "b" 1 60, watch.ProbedInTime := by
  intro h
  obtain ⟨j, hlow, hhigh, hprobed⟩ :=
    h (secondWatch 60 3600) 3600 (by decide) (by decide) (by decide)
  have hage : (secondWatch 60 3600).age j = 3600 + j * 60 := rfl
  have hwindow : window ({"a", "b"} : Finset String).card 1 60 = 960 := by decide
  have hcard : ({"a", "b"} : Finset String).card = 2 := by decide
  have httl : dayConfig.retainedTtlSeconds = 86400 := rfl
  rw [hwindow] at hhigh
  rw [Watch.probed_iff _ (by decide) (by omega), secondWatch_offset, hcard, Comes, hage] at hprobed
  obtain ⟨hcomes, hdue⟩ := hprobed
  obtain ⟨_, hb⟩ | ⟨_, _, hb⟩ | ⟨_, _, hb⟩ | ⟨_, hb⟩ :=
    backoff_cases (by omega : 900 ≤ 3600 + j * 60)
  · omega
  · omega
  · omega
  · rw [reconcileDue, hb] at hdue
    simp only [Bool.or_eq_true, beq_iff_eq, decide_eq_true_eq] at hdue
    omega

end Guardian.Reconcile
