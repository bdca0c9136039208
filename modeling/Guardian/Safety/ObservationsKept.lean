import Guardian.Lib.Rely
import Guardian.ReleaseSweep.ObservationQueue

/- No observation is lost. The consumer records observations, and any number of
   holders of the release sweep lease, current or superseded, visit and settle them:
   reads, visits, walk requests and writes of different holders come in any order,
   and each may fail, or be applied and reported as failed.

   A holder deletes an observation by its account and block only after it read it,
   and after a visit that began since then checked the account, or after it recorded
   a walk of the fleet (`settle`). What it read was recorded before, and what has
   happened stays so; hence whoever else recorded, settled or visited the same
   observation in between, a deleted one was checked, or is covered by a walk, since
   it was first recorded. -/
namespace Guardian.ObservationQueue

open BlockWatch Interleaving
open MetadataStores (Instant)
open ReleaseSweep (VisitOutcome)

namespace Kept

/-! ## The visitor, call by call -/

inductive Op where
  | now
  | nextDueObservation (now : Instant)
  /-- A visit begins; the answer is how much has happened by then, which no code
  reads. -/
  | beginVisit (accountId : String)
  | endVisit (accountId : String) (begun : Nat)
  /-- The position of the feed on this replica. -/
  | lastBlock
  | requestWalk
  | deleteObservation (accountId : String) (blockNum : Nat)
  | deferObservation (accountId : String) (blockNum : Nat) (nextAttemptAt : Instant)
  | postponeObservation (accountId : String) (blockNum : Nat) (nextAttemptAt : Instant)

/-- Whether a write went through is only logged. -/
abbrev Res : Op → Type
  | .now => Instant
  | .nextDueObservation _ => Option Observation
  | .beginVisit _ => Nat
  | .endVisit _ _ => VisitOutcome
  | .lastBlock => Option Nat
  | .requestWalk => Option FencedWrite
  | .deleteObservation _ _ => Unit
  | .deferObservation _ _ _ => Unit
  | .postponeObservation _ _ _ => Unit

abbrev VisitProg := Prog Op Res

def call (o : Op) : VisitProg (Res o) := Prog.op o

/-- The write that puts an observation off. -/
def putOff (observation : Observation) (wait : Nat) : VisitProg Unit := do
  let now ← call .now
  call (.postponeObservation observation.accountId observation.blockNum (dueIn now wait))

/-- `settle`. -/
def settle (cfg : Config) (observation : Observation) (outcome : VisitOutcome) :
    VisitProg Unit := do
  let lastBlock ← call .lastBlock
  match settlement cfg lastBlock observation outcome with
  | .delete => call (.deleteObservation observation.accountId observation.blockNum)
  | .postpone wait => putOff observation wait
  | .defer wait => do
    let now ← call .now
    call (.deferObservation observation.accountId observation.blockNum (dueIn now wait))
  | .drop wait => do
    match ← call .requestWalk with
    | some .written => call (.deleteObservation observation.accountId observation.blockNum)
    | _ => putOff observation wait

/-- `visit_next`. -/
def visitNext (cfg : Config) : VisitProg Unit := do
  let now ← call .now
  match ← call (.nextDueObservation now) with
  | none => return ()
  | some observation =>
    let begun ← call (.beginVisit observation.accountId)
    let outcome ← call (.endVisit observation.accountId begun)
    settle cfg observation outcome

/-- The observations' turns of a holder. -/
def visits (cfg : Config) : Nat → VisitProg Unit
  | 0 => return ()
  | n + 1 => do
    visitNext cfg
    visits cfg n

/-! ## The machine -/

/-- What is remembered of a run, oldest first. -/
inductive Entry where
  | recorded (accountId : String) (blockNum : Nat)
  /-- A visit that began after `begun` entries checked the account. -/
  | checked (accountId : String) (begun : Nat)
  | deferred (accountId : String) (blockNum : Nat)
  | requested
  deriving DecidableEq, Repr

structure World (store : ObservationStore) where
  rows : store.State
  log : List Entry

variable {store : ObservationStore}

def World.note (entries : List Entry) (w : World store) : World store :=
  { w with log := w.log ++ entries }

/-- What the environment decides about a call. -/
inductive Choice where
  | now (now : Instant)
  | outcome (outcome : VisitOutcome)
  | lastBlock (lastBlock : Option Nat)
  | done
  | failed
  | stale
  | lost
  deriving DecidableEq, Repr

def World.defer (accountId : String) (blockNum : Nat) (at_ : Instant) (w : World store) :
    World store :=
  match store.defer accountId blockNum at_ w.rows with
  | some rows => World.note [.deferred accountId blockNum] { w with rows }
  | none => w

/-- A visitor learns only from its walk request whether a write went through. -/
def exec : (op : Op) → Choice → World store → Option (Res op × World store)
  | .now, .now now, w => some (now, w)
  | .nextDueObservation now, .done, w =>
    some ((store.nextDue now w.rows).map (·.observation), w)
  | .nextDueObservation _, .failed, w => some (none, w)
  | .beginVisit _, .done, w => some (w.log.length, w)
  | .endVisit accountId begun, .outcome outcome, w =>
    some (outcome, if outcome = .checked then w.note [.checked accountId begun] else w)
  | .lastBlock, .lastBlock lastBlock, w => some (lastBlock, w)
  | .requestWalk, .done, w => some (some .written, w.note [.requested])
  | .requestWalk, .lost, w => some (none, w.note [.requested])
  | .requestWalk, .stale, w => some (some .staleLease, w)
  | .requestWalk, .failed, w => some (none, w)
  | .deleteObservation accountId blockNum, .done, w =>
    some ((), { w with rows := store.delete accountId blockNum w.rows })
  | .deleteObservation _ _, .failed, w => some ((), w)
  | .deferObservation accountId blockNum at_, .done, w =>
    some ((), w.defer accountId blockNum at_)
  | .deferObservation _ _ _, .failed, w => some ((), w)
  | .postponeObservation accountId blockNum at_, .done, w =>
    some ((), { w with rows := store.postpone accountId blockNum at_ w.rows })
  | .postponeObservation _ _ _, .failed, w => some ((), w)
  | _, _, _ => none

/-- What happens beside the visitors: the consumer records the observations of a
block, and walks are requested for other reasons. -/
inductive Act where
  | record (observations : List NewObservation) (now : Instant)
  | request
  deriving DecidableEq, Repr

def act : Act → World store → Option (World store)
  | .record new now, w =>
    some (World.note (new.map fun o => .recorded o.accountId o.blockNum)
      { w with rows := new.foldl (fun rows o => store.record o now rows) w.rows })
  | .request, w => some (w.note [.requested])

def machine (store : ObservationStore) : Machine Op Res (World store) Choice Act where
  exec := fun _ => exec
  act := act

/-- Nothing recorded yet. -/
def World.start : World store := ⟨store.empty, []⟩

/-- Any number of holders, each visiting any number of observations. -/
abbrev Reachable (store : ObservationStore) (cfg : Config) :
    Conf Op Res (World store) Nat → Prop :=
  Reach (machine store) (visits cfg) Guard.any World.start

/-! ## What is promised -/

/-- A visit that began after the observation was recorded checked the account. -/
def Checked (w : World store) (accountId : String) (blockNum : Nat) : Prop :=
  ∃ begun, .checked accountId begun ∈ w.log ∧ .recorded accountId blockNum ∈ w.log.take begun

/-- A walk was requested after the observation was recorded, and after all but one
of the attempts it has were counted. -/
def Covered (cfg : Config) (w : World store) (accountId : String) (blockNum : Nat) : Prop :=
  ∃ older newer, w.log = older ++ .requested :: newer ∧ .recorded accountId blockNum ∈ older ∧
    cfg.maxAttempts ≤ older.count (.deferred accountId blockNum) + 1

/-- The observation is still there, or it is not needed any more. -/
def Accounted (cfg : Config) (w : World store) (accountId : String) (blockNum : Nat) : Prop :=
  (∃ r ∈ store.rows w.rows, r.isOf accountId blockNum = true) ∨ Checked w accountId blockNum ∨
    Covered cfg w accountId blockNum

/-! ## What happened stays so -/

section Grows
variable {cfg : Config} {w w' : World store} {accountId : String} {blockNum : Nat}

theorem Checked.grow (h : Checked w accountId blockNum) (hlog : w.log <+: w'.log) :
    Checked w' accountId blockNum := by
  obtain ⟨begun, hchecked, hrecorded⟩ := h
  exact ⟨begun, hlog.subset hchecked, (hlog.take begun).subset hrecorded⟩

theorem Covered.grow (h : Covered cfg w accountId blockNum) (hlog : w.log <+: w'.log) :
    Covered cfg w' accountId blockNum := by
  obtain ⟨older, newer, heq, hrecorded, hattempts⟩ := h
  obtain ⟨newest, hnewest⟩ := hlog
  refine ⟨older, newer ++ newest, ?_, hrecorded, hattempts⟩
  rw [← hnewest, heq, List.append_assoc, List.cons_append]

/-- What is not needed any more never is again. -/
def Needless (cfg : Config) (w : World store) (accountId : String) (blockNum : Nat) : Prop :=
  Checked w accountId blockNum ∨ Covered cfg w accountId blockNum

theorem Needless.grow (h : Needless cfg w accountId blockNum) (hlog : w.log <+: w'.log) :
    Needless cfg w' accountId blockNum := h.imp (·.grow hlog) (·.grow hlog)

end Grows

/-- What the visitors keep: rows were recorded and count no more attempts than were
deferred, and every recorded observation is accounted for. -/
structure Inv (cfg : Config) (w : World store) : Prop where
  recorded : ∀ r ∈ store.rows w.rows, .recorded r.accountId r.blockNum ∈ w.log
  attempts : ∀ r ∈ store.rows w.rows,
    r.attempts ≤ w.log.count (.deferred r.accountId r.blockNum)
  accounted : ∀ {accountId blockNum}, .recorded accountId blockNum ∈ w.log →
    Accounted cfg w accountId blockNum

/-- Every row after a step is, but for its attempts and its time, one from before. -/
def Traced (w w' : World store) : Prop :=
  ∀ r ∈ store.rows w'.rows, ∃ r₀ ∈ store.rows w.rows, r₀.isOf r.accountId r.blockNum = true ∧
    r.attempts ≤ r₀.attempts + (w'.log.count (.deferred r.accountId r.blockNum) -
      w.log.count (.deferred r.accountId r.blockNum))

namespace Inv
variable {cfg : Config} {w w' : World store}

/-- A step that records nothing, and removes only what is not needed. -/
theorem of_traced (h : Inv cfg w) (hlog : w.log <+: w'.log)
    (hnew : ∀ accountId blockNum, .recorded accountId blockNum ∈ w'.log →
      .recorded accountId blockNum ∈ w.log)
    (htraced : Traced w w')
    (hgone : ∀ r ∈ store.rows w.rows, (∃ r' ∈ store.rows w'.rows,
      r'.isOf r.accountId r.blockNum = true) ∨ Needless cfg w' r.accountId r.blockNum) :
    Inv cfg w' where
  recorded := fun r hr => by
    obtain ⟨r₀, hr₀, hof, -⟩ := htraced r hr
    obtain ⟨haccount, hblock⟩ := StoredObservation.isOf_iff.mp hof
    rw [← haccount, ← hblock]
    exact hlog.subset (h.recorded r₀ hr₀)
  attempts := fun r hr => by
    obtain ⟨r₀, hr₀, hof, hle⟩ := htraced r hr
    obtain ⟨haccount, hblock⟩ := StoredObservation.isOf_iff.mp hof
    have hbefore := h.attempts r₀ hr₀
    rw [haccount, hblock] at hbefore
    have hcount := hlog.sublist.count_le (.deferred r.accountId r.blockNum)
    omega
  accounted := fun {accountId blockNum} hmem => by
    obtain ⟨r, hr, hof⟩ | hneedless := h.accounted (hnew _ _ hmem)
    · obtain ⟨rfl, rfl⟩ := StoredObservation.isOf_iff.mp hof
      obtain hstays | hgone := hgone r hr
      · exact .inl hstays
      · exact .inr hgone
    · exact .inr (Needless.grow hneedless hlog)

/-- The rows stay as they are. -/
theorem of_rows (h : Inv cfg w) (hlog : w.log <+: w'.log)
    (hnew : ∀ accountId blockNum, .recorded accountId blockNum ∈ w'.log →
      .recorded accountId blockNum ∈ w.log)
    (hrows : w'.rows = w.rows) : Inv cfg w' := by
  have hself : ∀ r : StoredObservation, r.isOf r.accountId r.blockNum = true := fun r =>
    StoredObservation.isOf_iff.mpr ⟨rfl, rfl⟩
  refine h.of_traced hlog hnew (fun r hr => ?_) fun r hr => .inl ⟨r, hrows ▸ hr, hself r⟩
  exact ⟨r, hrows ▸ hr, hself r, Nat.le_add_right _ _⟩

/-- The row of one account and block is changed, but for what it is of. -/
theorem of_changed (h : Inv cfg w) {accountId : String} {blockNum : Nat}
    {f : StoredObservation → StoredObservation} (hlog : w.log <+: w'.log)
    (hnew : ∀ accountId blockNum, .recorded accountId blockNum ∈ w'.log →
      .recorded accountId blockNum ∈ w.log)
    (hf : ∀ r, (f r).accountId = r.accountId ∧ (f r).blockNum = r.blockNum)
    (hattempts : ∀ r, (f r).attempts ≤ r.attempts +
      (w'.log.count (.deferred accountId blockNum) - w.log.count (.deferred accountId blockNum)))
    (hrows : ∀ {o}, o ∈ store.rows w'.rows ↔
      (∃ r ∈ store.rows w.rows, r.isOf accountId blockNum = true ∧ o = f r) ∨
      (o ∈ store.rows w.rows ∧ o.isOf accountId blockNum = false)) : Inv cfg w' := by
  refine h.of_traced hlog hnew (fun r hr => ?_) fun r hr => .inl ?_
  · obtain ⟨r₀, hr₀, hof, rfl⟩ | ⟨hold, -⟩ := hrows.mp hr
    · obtain ⟨rfl, rfl⟩ := StoredObservation.isOf_iff.mp hof
      obtain ⟨haccount, hblock⟩ := hf r₀
      rw [haccount, hblock]
      exact ⟨r₀, hr₀, StoredObservation.isOf_iff.mpr ⟨rfl, rfl⟩, hattempts r₀⟩
    · exact ⟨r, hold, StoredObservation.isOf_iff.mpr ⟨rfl, rfl⟩, Nat.le_add_right _ _⟩
  · cases hof : r.isOf accountId blockNum with
    | true =>
      exact ⟨f r, hrows.mpr (.inl ⟨r, hr, hof, rfl⟩), StoredObservation.isOf_iff.mpr (hf r)⟩
    | false =>
      exact ⟨r, hrows.mpr (.inr ⟨hr, hof⟩), StoredObservation.isOf_iff.mpr ⟨rfl, rfl⟩⟩

theorem delete (h : Inv cfg w) {accountId : String} {blockNum : Nat}
    (hneedless : Needless cfg w accountId blockNum) :
    Inv cfg { w with rows := store.delete accountId blockNum w.rows } := by
  refine h.of_traced (List.prefix_refl _) (fun _ _ hmem => hmem) (fun r hr => ?_) fun r hr => ?_
  · exact ⟨r, (store.mem_delete.mp hr).1, StoredObservation.isOf_iff.mpr ⟨rfl, rfl⟩,
      Nat.le_add_right _ _⟩
  · cases hof : r.isOf accountId blockNum with
    | true =>
      obtain ⟨rfl, rfl⟩ := StoredObservation.isOf_iff.mp hof
      exact .inr hneedless
    | false =>
      exact .inl ⟨r, store.mem_delete.mpr ⟨hr, hof⟩, StoredObservation.isOf_iff.mpr ⟨rfl, rfl⟩⟩

theorem postpone (h : Inv cfg w) {accountId : String} {blockNum : Nat} {at_ : Instant} :
    Inv cfg { w with rows := store.postpone accountId blockNum at_ w.rows } :=
  h.of_changed (f := (·.postponed (store.kept at_))) (List.prefix_refl _) (fun _ _ hmem => hmem)
    (fun _ => ⟨rfl, rfl⟩) (fun _ => Nat.le_add_right _ _) store.mem_postpone

theorem defer (h : Inv cfg w) {accountId : String} {blockNum : Nat} {at_ : Instant} :
    Inv cfg (w.defer accountId blockNum at_) := by
  unfold World.defer
  split
  · next rows hdefer =>
    refine h.of_changed (f := fun r => r.deferred (min (r.attempts + 1) u32Max) (store.kept at_))
      (List.prefix_append _ _) (fun _ _ hmem => ?_) (fun _ => ⟨rfl, rfl⟩) (fun r => ?_)
      (store.mem_defer hdefer)
    · simpa [World.note] using hmem
    · have hcount : (w.log ++ [Entry.deferred accountId blockNum]).count
          (.deferred accountId blockNum) = w.log.count (.deferred accountId blockNum) + 1 := by
        rw [List.count_append, List.count_singleton_self]
      show min (r.attempts + 1) u32Max ≤ r.attempts +
        ((w.log ++ [Entry.deferred accountId blockNum]).count (.deferred accountId blockNum) - _)
      rw [hcount, Nat.add_sub_cancel_left]
      exact Nat.min_le_left _ _
  · exact h

/-- Recording one observation. -/
theorem record (h : Inv cfg w) (new : NewObservation) (now : Instant) :
    Inv cfg (World.note [.recorded new.accountId new.blockNum]
      { w with rows := store.record new now w.rows }) := by
  have hlog : w.log <+: w.log ++ [Entry.recorded new.accountId new.blockNum] :=
    List.prefix_append _ _
  refine ⟨fun r hr => ?_, fun r hr => ?_, fun {accountId blockNum} hmem => ?_⟩
  · obtain hold | ⟨rfl, -⟩ := store.mem_record.mp hr
    · exact hlog.subset (h.recorded r hold)
    · exact List.mem_append_right _ List.mem_cons_self
  · obtain hold | ⟨rfl, -⟩ := store.mem_record.mp hr
    · exact Nat.le_trans (h.attempts r hold) (hlog.sublist.count_le _)
    · exact Nat.zero_le _
  · -- what was recorded before is accounted for as before, and the new one is there
    obtain hold | hnew := List.mem_append.mp hmem
    · obtain ⟨r, hr, hof⟩ | hneedless := h.accounted hold
      · exact .inl ⟨r, store.mem_record.mpr (.inl hr), hof⟩
      · exact .inr (Needless.grow hneedless hlog)
    · cases List.mem_singleton.mp hnew
      by_cases hthere : ∃ r ∈ store.rows w.rows, r.isOf new.accountId new.blockNum = true
      · obtain ⟨r, hr, hof⟩ := hthere
        exact .inl ⟨r, store.mem_record.mpr (.inl hr), hof⟩
      · refine .inl ⟨.new new (store.kept now), store.mem_record.mpr (.inr ⟨rfl, fun r hr => ?_⟩),
          StoredObservation.isOf_iff.mpr ⟨rfl, rfl⟩⟩
        exact Bool.eq_false_iff.mpr fun hof => hthere ⟨r, hr, hof⟩

theorem recordAll (now : Instant) (new : List NewObservation) : ∀ {w : World store}, Inv cfg w →
    Inv cfg (World.note (new.map fun o => .recorded o.accountId o.blockNum)
      { w with rows := new.foldl (fun rows o => store.record o now rows) w.rows }) := by
  induction new with
  | nil =>
    intro w h
    simpa [World.note] using h
  | cons o new ih =>
    intro w h
    have hrest := ih (h.record o now)
    simpa [World.note, List.append_assoc] using hrest

end Inv

/-! ## The discipline -/

/-- What is deleted is not needed any more. -/
def keeping (cfg : Config) : Rely Op (World store) where
  inv := Inv cfg
  rely := fun _ w w' => w.log <+: w'.log
  ok := fun _ op w =>
    match op with
    | .deleteObservation accountId blockNum => Needless cfg w accountId blockNum
    | _ => True
  refl := fun _ => List.prefix_refl _
  trans := fun h h' => h.trans h'

theorem exec_kept {cfg : Config} {pid : Nat} {op : Op} {ch : Choice} {w w' : World store}
    {r : Res op} (hok : (keeping cfg).ok pid op w) (hx : exec op ch w = some (r, w'))
    (hi : Inv cfg w) : Inv cfg w' ∧ w.log <+: w'.log := by
  have hsame : Inv cfg w ∧ w.log <+: w.log := ⟨hi, List.prefix_refl _⟩
  -- an entry that records nothing
  have hnote : ∀ {e}, (∀ accountId blockNum, e ≠ .recorded accountId blockNum) →
      Inv cfg (w.note [e]) ∧ w.log <+: (w.note [e]).log := by
    intro e he
    refine ⟨hi.of_rows (List.prefix_append _ _) (fun accountId blockNum hmem => ?_) rfl,
      List.prefix_append _ _⟩
    obtain hold | hnew := List.mem_append.mp hmem
    · exact hold
    · exact absurd (List.mem_singleton.mp hnew).symm (he accountId blockNum)
  cases op with
  | endVisit accountId begun =>
    cases ch with
    | outcome outcome =>
      cases hx
      split
      · exact hnote fun _ _ h => by cases h
      · exact hsame
    | _ => cases hx
  | requestWalk =>
    cases ch with
    | done => cases hx; exact hnote fun _ _ h => by cases h
    | lost => cases hx; exact hnote fun _ _ h => by cases h
    | stale => cases hx; exact hsame
    | failed => cases hx; exact hsame
    | _ => cases hx
  | deleteObservation accountId blockNum =>
    cases ch with
    | done => cases hx; exact ⟨hi.delete hok, List.prefix_refl _⟩
    | failed => cases hx; exact hsame
    | _ => cases hx
  | deferObservation accountId blockNum at_ =>
    cases ch with
    | done =>
      cases hx
      refine ⟨hi.defer, ?_⟩
      unfold World.defer
      split
      · exact List.prefix_append _ _
      · exact List.prefix_refl _
    | failed => cases hx; exact hsame
    | _ => cases hx
  | postponeObservation accountId blockNum at_ =>
    cases ch with
    | done => cases hx; exact ⟨hi.postpone, List.prefix_refl _⟩
    | failed => cases hx; exact hsame
    | _ => cases hx
  | _ => cases ch <;> cases hx <;> exact hsame

theorem keeping_kept (cfg : Config) : (keeping cfg).Kept (machine store)
    (Guard.any : Guard Op Nat (World store) Choice Act) (fun _ _ _ => True) where
  call := by
    intro pid op ch w r w' _ hok _ hx hi
    obtain ⟨hinv, hlog⟩ := exec_kept hok hx hi
    exact ⟨hinv, fun _ => hlog⟩
  act := by
    intro a w w' _ hx hi
    cases a with
    | record new now => cases hx; exact ⟨hi.recordAll now new, List.prefix_append _ _⟩
    | request =>
      cases hx
      refine ⟨hi.of_rows (List.prefix_append _ _) (fun _ _ hmem => ?_) rfl, List.prefix_append _ _⟩
      simpa [World.note] using hmem

/-! ## The visitor -/

section Visitor
variable {cfg : Config} {pid : Nat} {w : World store} {accountId : String} {blockNum : Nat}

abbrev Wp {α : Type} (cfg : Config) (pid : Nat) (p : VisitProg α) (Q : α → World store → Prop)
    (w : World store) : Prop :=
  (keeping cfg).wp (machine store) (Guard.any : Guard Op Nat (World store) Choice Act) pid p Q w

/-- Calls that delete nothing. -/
def Op.isSafe : Op → Bool
  | .deleteObservation _ _ => false
  | _ => true

/-- A call that deletes nothing; what is known then is what it leads to. -/
theorem wp_safe {β : Type} {o : Op} {k : Res o → VisitProg β} {Q : β → World store → Prop}
    (ho : o.isSafe = true)
    (hk : ∀ {ch r w₁ w₂}, w.log <+: w₁.log → Inv cfg w₁ → exec o ch w₁ = some (r, w₂) →
      w₁.log <+: w₂.log → Wp cfg pid (k r) Q w₂) : Wp cfg pid (call o >>= k) Q w := by
  intro w₁ hr hi
  have hok : (keeping cfg).ok pid o w₁ := by cases o <;> trivial
  refine ⟨hok, fun ch r w₂ _ hx _ => ?_⟩
  exact hk hr hi hx (exec_kept hok hx hi).2

theorem wp_delete (h : Needless cfg w accountId blockNum) :
    Wp cfg pid (call (.deleteObservation accountId blockNum)) (fun _ _ => True) w :=
  fun _ hr _ => ⟨h.grow hr, fun _ _ _ _ _ _ => trivial⟩

theorem wp_putOff (observation : Observation) (wait : Nat) :
    Wp cfg pid (putOff observation wait) (fun _ _ => True) w :=
  wp_safe rfl fun _ _ _ _ => fun _ _ _ => ⟨trivial, fun _ _ _ _ _ _ => trivial⟩

/-- What a visitor knows of an observation it read. -/
structure Known (observation : Observation) (w : World store) : Prop where
  recorded : .recorded observation.accountId observation.blockNum ∈ w.log
  attempts : observation.attempts ≤
    w.log.count (.deferred observation.accountId observation.blockNum)

theorem Known.grow {observation : Observation} {w w' : World store} (h : Known observation w)
    (hlog : w.log <+: w'.log) : Known observation w' :=
  ⟨hlog.subset h.recorded, Nat.le_trans h.attempts (hlog.sublist.count_le _)⟩

/-- A checked visit, or a recorded walk, before the observation goes. -/
theorem wp_settle {observation : Observation} {outcome : VisitOutcome}
    (hknown : Known observation w)
    (hchecked : outcome = .checked → Checked w observation.accountId observation.blockNum) :
    Wp cfg pid (settle cfg observation outcome) (fun _ _ => True) w := by
  refine wp_safe rfl fun {_ lastBlock w₁ w₂} hr _ _ hlog => ?_
  have hknown := hknown.grow (hr.trans hlog)
  cases hsettle : settlement cfg lastBlock observation outcome with
  | delete =>
    have hout : outcome = .checked := by
      cases outcome with
      | checked => rfl
      | waiting => cases hsettle
      | deferred =>
        simp only [settlement] at hsettle
        split at hsettle <;> cases hsettle
      | failed =>
        simp only [settlement] at hsettle
        split at hsettle <;> cases hsettle
    exact wp_delete (.inl ((hchecked hout).grow (hr.trans hlog)))
  | postpone wait => exact wp_putOff observation wait
  | defer wait =>
    exact wp_safe rfl fun _ _ _ _ => fun _ _ _ => ⟨trivial, fun _ _ _ _ _ _ => trivial⟩
  | drop wait =>
    -- only an observation out of attempts is dropped
    have hmax : cfg.maxAttempts ≤ observation.attempts + 1 := by
      cases outcome with
      | checked => cases hsettle
      | waiting => cases hsettle
      | deferred =>
        simp only [settlement] at hsettle
        split at hsettle
        · next hmax => exact Nat.le_trans hmax (Nat.min_le_left _ _)
        · cases hsettle
      | failed =>
        simp only [settlement] at hsettle
        split at hsettle
        · next hmax => exact Nat.le_trans hmax (Nat.min_le_left _ _)
        · cases hsettle
    refine wp_safe rfl fun {ch answer w₃ w₄} hr _ hx _ => ?_
    have hknown := hknown.grow hr
    have hwalk : answer = some .written →
        Covered cfg w₄ observation.accountId observation.blockNum := by
      rintro rfl
      cases ch <;> cases hx
      refine ⟨w₃.log, [], rfl, hknown.recorded, Nat.le_trans hmax ?_⟩
      exact Nat.add_le_add_right hknown.attempts 1
    cases answer with
    | none => exact wp_putOff observation wait
    | some write =>
      cases write with
      | written => exact wp_delete (.inr (hwalk rfl))
      | staleLease => exact wp_putOff observation wait

theorem wp_visitNext : Wp cfg pid (visitNext cfg) (fun _ _ => True) w := by
  refine wp_safe rfl fun {_ now _ _} _ _ _ _ => ?_
  refine wp_safe rfl fun {ch read w₁ w₂} _ hi hx _ => ?_
  cases read with
  | none => trivial
  | some observation =>
    -- what is read is a row, and rows were recorded
    have hknown : Known observation w₂ := by
      cases ch with
      | done =>
        obtain ⟨hread, rfl⟩ := Prod.mk.inj (Option.some.inj hx)
        obtain ⟨r, hr, rfl⟩ := Option.map_eq_some_iff.mp hread
        have hmem := (store.nextDue_iff.mp hr).mem
        exact ⟨hi.recorded r hmem, hi.attempts r hmem⟩
      | _ => cases hx
    refine wp_safe rfl fun {ch begun w₃ w₄} hr _ hx hlog => ?_
    have hknown := hknown.grow hr
    have hbegun : begun = w₃.log.length ∧ w₄ = w₃ := by
      cases ch <;> cases hx
      exact ⟨rfl, rfl⟩
    obtain ⟨rfl, rfl⟩ := hbegun
    refine wp_safe rfl fun {ch outcome w₅ w₆} hr _ hx hlog₆ => ?_
    refine wp_settle (hknown.grow (hr.trans hlog₆)) fun hout => ⟨w₄.log.length, ?_, ?_⟩
    · subst hout
      cases ch <;> cases hx
      exact List.mem_append_right _ List.mem_cons_self
    · rw [← List.prefix_iff_eq_take.mp (hr.trans hlog₆)]
      exact hknown.recorded

theorem wp_visits (n : Nat) : ∀ {w : World store},
    Wp cfg pid (visits cfg n) (fun _ _ => True) w := by
  induction n with
  | zero => exact trivial
  | succ n ih => exact Rely.wp_bind (Rely.wp_mono wp_visitNext fun _ _ _ => ih)

end Visitor

end Kept

/-- In every run of any number of holders beside the consumer, an observation that was
recorded is still there, or the account was checked by a visit that began since, or a
walk of the fleet was requested since, once its attempts were used up. -/
theorem no_observation_lost {cfg : Config} {c : Conf Kept.Op Kept.Res (Kept.World store) Nat}
    (h : Kept.Reachable store cfg c) {accountId : String} {blockNum : Nat}
    (hrecorded : .recorded accountId blockNum ∈ c.world.log) :
    Kept.Accounted cfg c.world accountId blockNum := by
  have h0 : Kept.Inv cfg (Kept.World.start : Kept.World store) :=
    ⟨fun r hr => absurd hr (store.mem_empty r), fun r hr => absurd hr (store.mem_empty r),
      fun hmem => by cases hmem⟩
  obtain ⟨hinv, -⟩ := Rely.reach (Kept.keeping_kept cfg) (fun _ _ => trivial) h0
    (fun {_ _ n} _ _ _ _ => Kept.wp_visits n) h
  exact hinv.accounted hrecorded

/-- One observation, which a holder visits and deletes. -/
def Demo.settled : List (Interleaving.Event Nat Kept.Choice Kept.Act) :=
  [.env (.record [⟨"a", 4, "x"⟩] 1000), .spawn 0 1] ++
    [.now 2000, .done, .done, .outcome .checked, .lastBlock (some 4), .done].map (.run 0)

theorem no_observation_lost_deleted :
    ∃ c, Kept.Reachable InMemory.store ⟨60000, 20⟩ c ∧ InMemory.store.rows c.world.rows = [] ∧
      Kept.Accounted ⟨60000, 20⟩ c.world "a" 4 := by
  have htest : (runEvents (Kept.machine InMemory.store) (Kept.visits ⟨60000, 20⟩) Guard.any
      (.start Kept.World.start) Demo.settled).any (fun c =>
        (InMemory.store.rows c.world.rows == []) &&
          c.world.log.contains (.recorded "a" 4)) = true := by decide +kernel
  obtain ⟨c, hrun, htest⟩ := (Option.any_eq_true ..).mp htest
  obtain ⟨hrows, hmem⟩ := (Bool.and_eq_true_iff ..).mp htest
  have hr : Kept.Reachable InMemory.store ⟨60000, 20⟩ c := Reach.init.runEvents hrun
  exact ⟨c, hr, by simpa using hrows, no_observation_lost hr (by simpa using hmem)⟩

end Guardian.ObservationQueue
