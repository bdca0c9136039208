import Guardian.FileMachine
import Guardian.Safety.Attempts

/- An abandon intent is never lost. Every counter a worker writes is computed
   from the status it read when its pass started, so a write made after the
   client's request knows nothing of it. Both backends re-read the row under
   their lock: a candidate status takes the stored intent over, and a retained
   one, which could not carry it, is refused. With retention on, nothing but a
   promotion or the abandon itself ends such a candidate; an execution cannot
   take it away, for the request is refused on a candidate an execution owns,
   and an execution is admitted into an empty queue only. -/
namespace Guardian

open Interleaving

/-- A status that carries the intent. -/
def DeltaStatus.intends (s : DeltaStatus) : Bool := s.abandonRequestedAt.isSome

/-- Where an intent ends: the delta was promoted, or its abandon took place. -/
def DeltaStatus.endsIntent (s : DeltaStatus) : Bool := s.isCanonical || s.isClientAbandoned

namespace DeltaStatus
variable {s status : DeltaStatus}

theorem isCandidate_of_intends (h : s.intends = true) : s.isCandidate = true := by
  cases s <;> first | rfl | cases h

theorem not_isParked_of_intends (h : s.intends = true) : s.isParked = false := by
  cases s <;> first | rfl | cases h

theorem intends_withAbandonRequested (h : s.isCandidate = true) (now : Time) :
    (s.withAbandonRequested now).intends = true := by
  cases s <;> first | rfl | cases h

/-- What a pass writes over a candidate with an intent keeps the intent or ends
it; the retained status is the one that would not, and is refused. -/
theorem intends_preserved {snapshot : DeltaObject} (hs : s.intends = true)
    (hsnapshot : snapshot.status.isCandidate = true) (hsettles : Settles snapshot status)
    (hretained : status.isRetained = false) :
    (status.withAbandonRequestPreservedFrom s.abandonRequestedAt).intends = true ∨
      (status.withAbandonRequestPreservedFrom s.abandonRequestedAt).endsIntent = true := by
  rcases hsettles with hr | ha | hc
  · rw [hretained] at hr
    cases hr
  · right
    have hkeep : status.withAbandonRequestPreservedFrom s.abandonRequestedAt = status := by
      cases status <;> first | rfl | cases ha
    rw [hkeep, endsIntent, ha, Bool.or_true]
  · left
    rw [hsnapshot] at hc
    rw [intends, abandonRequestedAt_preserved status _ hc]
    cases hstatus : status.abandonRequestedAt with
    | none =>
      rw [Option.none_or]
      exact hs
    | some t => rfl

end DeltaStatus

/-! ## Postgres -/

/-- The row `id` at the nonce carries the intent. -/
def Db.Intends (db : Db) (nonce : Nonce) (id : Nat) : Prop :=
  ∃ r, db.rowAt nonce = some r ∧ r.id = id ∧ r.delta.status.intends = true

/-- The row `id` at the nonce was promoted, or its abandon took place. -/
def Db.IntentEnded (db : Db) (nonce : Nonce) (id : Nat) : Prop :=
  ∃ r, db.rowAt nonce = some r ∧ r.id = id ∧ r.delta.status.endsIntent = true

/-- No unresolved execution has evidence at the nonce. -/
def Db.Unowned (db : Db) (nonce : Nonce) : Prop :=
  ∀ e ∈ db.executions, e.outcome = none → e.evidence.any (·.candidateNonce == nonce) = false

section Postgres
variable {net : Network} {cfg : Config} {pid : Nat} {op : Op} {w w' : World} {nonce : Nonce}
  {id : Nat}

/-- While a candidate is queued, no execution comes to own its nonce. -/
theorem unowned_effect (hinv : w.db.AttemptInv) (h : Effect pid w op w')
    (hcand : w.db.hasCandidate = true) (hu : w.db.Unowned nonce) : w'.db.Unowned nonce := by
  intro e' he' hout
  cases h.attempts hinv with
  | same heq => exact hu e' (heq ▸ he') hout
  | @reserved record hr =>
    rw [hr.eq] at he'
    rcases List.mem_append.mp he' with he' | he'
    · exact hu e' he' hout
    · rw [List.mem_singleton.mp he', hr.evidence]
      rfl
  | @touched e f he hnone ht heq =>
    rw [heq, hinv.mem_update he] at he'
    rcases he' with rfl | ⟨he', _⟩
    · cases ht with
      | renewed keeps =>
        rw [(keeps e).1]
        exact hu e he hnone
      | admitted _ had =>
        rw [had.idle] at hcand
        cases hcand
      | committed | settled | failed => cases hout
    · exact hu e' he' hout

/-- The request is recorded on a row no unresolved execution has evidence at. -/
theorem unowned_of_owningExecution (hinv : w.db.AttemptInv)
    (h : w.db.owningExecution nonce = none) : w.db.Unowned nonce := by
  intro e he hout
  have hactive := hinv.active_eq he hout
  rw [Db.owningExecution, hactive, Option.filter_eq_none_iff] at h
  have howns := h e rfl
  have hlive : e.isActive = true := (Db.activeExecution_eq_some hactive).2
  simpa [ExecutionRecord.ownsCandidate, hlive] using howns

/-- Every call keeps the intent on its row, or ends it. -/
theorem intends_effect (hret : 0 < cfg.retainedTtlSeconds) (hfits : op.Fits net cfg)
    (hok : HeldOk cfg pid w op) (h : Effect pid w op w') (hu : w.db.Unowned nonce)
    (hi : w.db.Intends nonce id) : w'.db.Intends nonce id ∨ w'.db.IntentEnded nonce id := by
  obtain ⟨r, hat, hid, hintends⟩ := hi
  obtain ⟨hr, hn⟩ := Db.rowAt_eq_some.mp hat
  have hcand := DeltaStatus.isCandidate_of_intends hintends
  have hnot := DeltaStatus.not_isParked_of_intends hintends
  cases h.row_to hr with
  | kept hmem => exact .inl ⟨r, Db.rowAt_eq_some.mpr ⟨hmem, hn⟩, hid, hintends⟩
  | superseded _ _ hparked | replaced _ _ _ _ hparked =>
    rw [hnot] at hparked
    cases hparked
  | abandoned _ _ hmem =>
    exact .inl ⟨_, Db.rowAt_eq_some.mpr ⟨hmem, hn⟩, hid, DeltaStatus.intends_withAbandonRequested hcand _⟩
  | updated hcall hup hmem =>
    subst hcall
    have hretained : ∀ {s : DeltaStatus}, s.isRetained = true → s.kind = .retained := by
      intro s hs
      cases s <;> first | rfl | cases hs
    have hrefused : ¬_ = true := fun hs => by
      have hnone := hup.unrequested (hretained hs)
      rw [DeltaStatus.intends, hnone] at hintends
      cases hintends
    rcases DeltaStatus.intends_preserved hintends hok.2 hfits.2 (Bool.eq_false_of_not_eq_true hrefused)
      with hkeep | hend
    · exact .inl ⟨_, Db.rowAt_eq_some.mpr ⟨hmem, hn⟩, hid, hkeep⟩
    · exact .inr ⟨_, Db.rowAt_eq_some.mpr ⟨hmem, hn⟩, hid, hend⟩
  | flipped hcall _ _ _ _ hmem =>
    subst hcall
    refine .inr ⟨_, Db.rowAt_eq_some.mpr ⟨hmem, hn⟩, hid, ?_⟩
    simp [DeltaRow.rewrite, DeltaStatus.endsIntent, hfits.canonical.1]
  | discarded hcall hdis =>
    -- with retention on, a pass deletes retained rows only
    subst hcall
    have hkind := hdis.row_kind
    rcases hfits.2 with rfl | ⟨_, hoff⟩
    · cases hs : r.delta.status <;> simp_all [DeltaStatus.kind, DeltaStatus.isCandidate]
    · omega
  | resolved _ _ he hout howns =>
    rw [hn, hu _ he hout] at howns
    cases howns

end Postgres

/-! ## The filesystem -/

/-- The file at the nonce carries the intent. -/
def Files.Intends (files : Files) (nonce : Nonce) : Prop :=
  ∃ d, files.pullDelta nonce = some d ∧ d.status.intends = true

def Files.IntentEnded (files : Files) (nonce : Nonce) : Prop :=
  ∃ d, files.pullDelta nonce = some d ∧ d.status.endsIntent = true

namespace Files
variable {net : Network} {cfg : Config} {files : Files} {nonce : Nonce}

/-- The intent is on the file, or has ended. -/
def Tracks (nonce : Nonce) (files : Files) : Prop := files.Intends nonce ∨ files.IntentEnded nonce

/-- A write that leaves the file at the nonce alone, or leaves it with the
intent or its end. -/
def Tame (nonce : Nonce) (write : Files → Files) : Prop :=
  (∀ f, (write f).pullDelta nonce = f.pullDelta nonce) ∨ ∀ f, (write f).Tracks nonce

theorem Tame.tracks {write : Files → Files} (h : Tame nonce write) {f : Files}
    (hf : f.Tracks nonce) : (write f).Tracks nonce := by
  rcases h with h | h
  · simpa only [Tracks, Intends, IntentEnded, h f] using hf
  · exact h f

/-- A plan of tame writes keeps track, wherever it ends. -/
theorem run_tracks {α : Type} {plan : Plan α} (h : ∀ write ∈ plan.writes, Tame nonce write) (n : Nat)
    (hf : files.Tracks nonce) : (plan.run n files).Tracks nonce := by
  have hall : ∀ {writes : List (Files → Files)} {f : Files}, (∀ write ∈ writes, Tame nonce write) →
      f.Tracks nonce → (writes.foldl (fun f write => write f) f).Tracks nonce := by
    intro writes
    induction writes with
    | nil => exact fun _ hf => hf
    | cons write writes ih =>
      intro f hw hf
      exact ih (fun w hmem => hw w (.tail _ hmem)) ((hw write List.mem_cons_self).tracks hf)
  exact hall (fun write hmem => h write (List.mem_of_mem_take hmem)) hf

theorem tame_setMetadata (f : AccountMetadata → AccountMetadata) : Tame nonce (setMetadata f) :=
  .inl fun _ => rfl

theorem tame_releasePendingFlag : Tame nonce releasePendingFlag := by
  refine .inl fun f => ?_
  unfold releasePendingFlag
  split <;> rfl

theorem tame_commitPromotedExecution (n : Nonce) (promoted : Commitment) (now : Time) :
    Tame nonce (commitPromotedExecution n promoted now) := by
  refine .inl fun f => ?_
  unfold commitPromotedExecution
  split <;> rfl

theorem tame_deleteDelta {n : Nonce} (h : nonce ≠ n) : Tame nonce (deleteDelta n) :=
  .inl fun _ => pullDelta_deleteDelta_ne h

theorem tame_writeDelta {delta : DeltaObject}
    (h : delta.nonce = nonce → delta.status.intends = true ∨ delta.status.endsIntent = true) :
    Tame nonce (writeDelta delta) := by
  by_cases hn : delta.nonce = nonce
  · subst hn
    refine .inr fun f => ?_
    rcases h rfl with hi | he
    · exact .inl ⟨delta, pullDelta_writeDelta_self, hi⟩
    · exact .inr ⟨delta, pullDelta_writeDelta_self, he⟩
  · exact .inl fun _ => pullDelta_writeDelta_ne fun heq => hn heq.symm

theorem tame_promotionWrites {p : CandidatePromotion} (h : p.delta.status.isCanonical = true)
    {cleanUp : List (Files → Files)} (hc : ∀ write ∈ cleanUp, Tame nonce write) :
    ∀ write ∈ promotionWrites p cleanUp, Tame nonce write := by
  intro write hw
  simp only [promotionWrites, List.mem_append, List.mem_cons, List.not_mem_nil, or_false] at hw
  rcases hw with (((rfl | hw) | rfl) | hw) | rfl | rfl
  · exact .inl fun _ => rfl
  · split at hw
    · rw [List.mem_singleton.mp hw]
      exact tame_setMetadata _
    · cases hw
  · exact tame_writeDelta fun _ => .inr (by simp [DeltaStatus.endsIntent, h])
  · exact hc write hw
  · exact tame_releasePendingFlag
  · exact tame_commitPromotedExecution _ _ _

/-- An operation whose writes are all tame keeps track. -/
theorem perform_tracks {α : Type} {plan : Option (Plan α)} {n : Nat}
    (h : ∀ {p}, plan = some p → ∀ write ∈ p.writes, Tame nonce write) (hf : files.Tracks nonce) :
    (files.perform n plan).2.Tracks nonce := by
  cases plan with
  | none => exact hf
  | some p => exact run_tracks (h rfl) n hf

theorem tame_requestCandidateAbandon {n : Nonce} {new : Commitment} {now : Time} :
    ∀ write ∈ (files.requestCandidateAbandon n new now).writes, Tame nonce write := by
  unfold requestCandidateAbandon
  intro write hw
  repeat' split at hw
  all_goals first
    | exact absurd hw List.not_mem_nil
    | skip
  next delta hdelta hcand _ hnone =>
  rw [List.mem_singleton.mp hw]
  have hc : delta.status.isCandidate = true := by
    simp only [not_or, Bool.not_eq_false] at hcand
    exact hcand.1
  exact tame_writeDelta fun _ => .inl (DeltaStatus.intends_withAbandonRequested hc now)

theorem tame_restoreSuperseded {p : CandidatePromotion} {plan : Plan PromoteWrite}
    (hp : p.delta.status.isCanonical = true) (h : files.restoreSuperseded p = some plan) :
    ∀ write ∈ plan.writes, Tame nonce write := by
  unfold restoreSuperseded at h
  dsimp only at h
  intro write hw
  split at h
  · cases h
    cases hw
  split at h
  · cases h
    cases hw
  split at h
  · cases h
  split at h
  · cases h
    cases hw
  cases h
  rcases List.mem_append.mp hw with hw | hw
  · split at hw
    · rw [List.mem_singleton.mp hw]
      exact .inl fun _ => rfl
    · cases hw
  · refine tame_promotionWrites hp (fun remove hmem => ?_) write hw
    obtain ⟨s, _, rfl⟩ := List.mem_map.mp hmem
    exact .inl fun _ => rfl

theorem tame_promoteCandidate {p : CandidatePromotion} {plan : Plan PromoteWrite}
    (hp : p.delta.status.isCanonical = true) (h : files.promoteCandidate p = some plan) :
    ∀ write ∈ plan.writes, Tame nonce write := by
  unfold promoteCandidate at h
  intro write hw
  split at h
  · exact tame_restoreSuperseded hp h write hw
  repeat' split at h
  all_goals cases h
  all_goals first
    | exact absurd hw List.not_mem_nil
    | exact tame_promotionWrites hp (fun _ hnil => absurd hnil List.not_mem_nil) write hw

section Operations
variable {d : DeltaObject} (hd : files.pullDelta nonce = some d) (hi : d.status.intends = true)
include hd hi

theorem tame_submitCandidate {delta : DeltaObject} {now : Time} {policy : CandidatePolicy}
    {plan : Plan CandidateSubmission} (h : files.submitCandidate delta now policy = some plan) :
    ∀ write ∈ plan.writes, Tame nonce write := by
  -- a nonce with no file, or with a parked one, is not the candidate's
  have hfree : files.pullDelta delta.nonce = none → delta.nonce ≠ nonce := by
    rintro hnone rfl
    rw [hd] at hnone
    cases hnone
  have hparked : ∀ {e}, files.pullDelta delta.nonce = some e → e.status.isParked = true →
      delta.nonce ≠ nonce := by
    rintro e hexisting hp rfl
    rw [hd] at hexisting
    cases hexisting
    rw [DeltaStatus.not_isParked_of_intends hi] at hp
    cases hp
  have hwrites : delta.nonce ≠ nonce → ∀ e,
      ∀ write ∈ [archiveDelta e now, deleteDelta delta.nonce, writeDelta delta, setPendingFlag],
        Tame nonce write := by
    intro hne e write hw
    simp only [List.mem_cons, List.not_mem_nil, or_false] at hw
    rcases hw with rfl | rfl | rfl | rfl
    · exact .inl fun _ => rfl
    · exact tame_deleteDelta hne.symm
    · exact tame_writeDelta fun heq => absurd heq hne
    · exact tame_setMetadata _
  unfold submitCandidate at h
  intro write hw
  repeat' split at h
  all_goals cases h
  all_goals first
    | exact absurd hw List.not_mem_nil
    | skip
  · next hnone => exact hwrites (hfree hnone) delta write (.tail _ (.tail _ hw))
  · next existing hp _ => exact hwrites (hparked existing hp) _ write hw
  · next existing hp _ => exact hwrites (hparked existing hp) delta write (.tail _ hw)

theorem tame_discardCandidate {n : Nonce} {kind : DeltaStatusKind} (hk : kind = .retained) :
    ∀ write ∈ (files.discardCandidate n kind).writes, Tame nonce write := by
  unfold discardCandidate
  intro write hw
  repeat' split at hw
  all_goals first
    | exact absurd hw List.not_mem_nil
    | skip
  next hkind =>
  have hne : nonce ≠ n := by
    rintro rfl
    have hc := DeltaStatus.isCandidate_of_intends hi
    cases hs : d.status <;> simp_all [DeltaStatus.kind, DeltaStatus.isCandidate]
  simp only [List.mem_cons, List.not_mem_nil, or_false] at hw
  rcases hw with rfl | rfl
  · exact tame_deleteDelta hne
  · exact tame_releasePendingFlag

theorem tame_updateCandidateStatus {n : Nonce} {status : DeltaStatus} {snapshot : DeltaObject}
    (hsnapshot : snapshot.status.isCandidate = true) (hsettles : Settles snapshot status) :
    ∀ write ∈ (files.updateCandidateStatus n status).writes, Tame nonce write := by
  unfold updateCandidateStatus
  intro write hw
  repeat' split at hw
  all_goals first
    | exact absurd hw List.not_mem_nil
    | skip
  next delta hdelta hcand hprotected hrefused =>
  rw [List.mem_singleton.mp hw]
  refine tame_writeDelta fun hn => ?_
  have hown : delta = d := by
    have hsame : n = nonce := (pullDelta_eq_some hdelta).symm.trans hn
    rw [hsame, hd] at hdelta
    cases hdelta
    rfl
  subst hown
  have hretained : status.isRetained = false := by
    by_contra hr
    exact hrefused ⟨by simpa using hr, hi⟩
  exact DeltaStatus.intends_preserved hi hsnapshot hsettles hretained

end Operations

/-- Every call keeps the intent on its file, or ends it. -/
theorem intends_exec (hret : 0 < cfg.retainedTtlSeconds) {pid : Nat} {op : Op} {ch : FileChoice}
    {r : Res op} {files' : Files} (hfits : op.Fits net cfg) (hok : SnapshotOk op)
    (h : fileExec pid op ch files = some (r, files')) (hi : files.Intends nonce) :
    files'.Tracks nonce := by
  obtain ⟨d, hd, hintends⟩ := hi
  have htracks : files.Tracks nonce := .inl ⟨d, hd, hintends⟩
  unfold fileExec at h
  split at h
  all_goals
    obtain rfl : _ = files' := congrArg Prod.snd (Option.some.inj h)
  all_goals first
    | exact htracks
    | skip
  · exact perform_tracks (fun heq => tame_submitCandidate hd hintends heq) htracks
  · refine perform_tracks (fun heq => ?_) htracks
    cases heq
    exact tame_requestCandidateAbandon
  · exact perform_tracks (fun heq => tame_promoteCandidate hfits.canonical.1 heq) htracks
  · refine perform_tracks (fun heq => ?_) htracks
    cases heq
    refine tame_discardCandidate hd hintends ?_
    rcases hfits.2 with hk | ⟨_, hoff⟩
    · exact hk
    · omega
  · refine perform_tracks (fun heq => ?_) htracks
    cases heq
    exact tame_updateCandidateStatus hd hintends hok hfits.2

end Files

/-! ## Whole runs -/

/-- The next call of process `pid` is an abandon request on the nonce. -/
def Requesting {W : Type} (c : Conf Op Res W Request) (pid : Nat) (nonce : Nonce) : Prop :=
  ∃ req new now k, c.procs pid = some (req, .call (.write (.requestCandidateAbandon nonce new now)) k)

/-- A step from `c` to `c₁` recorded an abandon request on the row `id`. -/
structure RequestRecorded (net : Network) (cfg : Config) (c c₁ : SystemConf) (nonce : Nonce)
    (id : Nat) : Prop where
  step : ∃ pid ch, Requesting c pid nonce ∧
    step (machine net) (body net cfg) .any c (.run pid ch) = some c₁
  before : ¬c.world.db.Intends nonce id
  after : c₁.world.db.Intends nonce id

/-- A step from `c` to `c₁` recorded an abandon request on the file. -/
structure FileRequestRecorded (net : Network) (cfg : Config) (c c₁ : FileConf) (nonce : Nonce) :
    Prop where
  step : ∃ pid ch, Requesting c pid nonce ∧
    step fileMachine (body net cfg) withoutExecutions c (.run pid ch) = some c₁
  before : ¬c.world.Intends nonce
  after : c₁.world.Intends nonce

/-- A request is recorded where no unresolved execution has evidence. -/
theorem RequestRecorded.unowned {net : Network} {cfg : Config} {w₀ : World} {c c₁ : SystemConf}
    {nonce : Nonce} {id : Nat} (hfresh : w₀.Fresh net) (hc : Reachable net cfg .any w₀ c)
    (h : RequestRecorded net cfg c c₁ nonce id) : c₁.world.db.Unowned nonce := by
  obtain ⟨pid, ch, ⟨req, new, now, k, hp⟩, hstep⟩ := h.step
  have hinv := Db.AttemptInv.of_reachable hfresh hc
  simp only [Interleaving.step, hp, Guard.any, if_true] at hstep
  split at hstep
  swap
  · cases hstep
  next r w hx =>
  cases hstep
  have hafter : w.db.Intends nonce id := h.after
  have hexec : exec pid (.write (.requestCandidateAbandon nonce new now)) ch c.world = some (r, w) := hx
  cases (exec_effect hexec).2 with
  | idle => exact absurd hafter h.before
  | plain hplain =>
    refine absurd ?_ h.before
    simpa only [Db.Intends, Db.rowAt, hplain.deltas] using hafter
  | abandonRecorded hrec =>
    intro e he hout
    exact unowned_of_owningExecution hinv hrec.unowned e (hrec.rest.executions ▸ he) hout

/-- With retention on, an abandon intent recorded on a candidate stays on its
row until the row is canonical or client-abandoned: in every run of the whole
server on Postgres, and in every run without executions on the filesystem. -/
theorem abandon_intent_never_lost (net : Network) (cfg : Config)
    (hret : 0 < cfg.retainedTtlSeconds) :
    (∀ w₀ : World, w₀.Fresh net → ∀ c, Reachable net cfg .any w₀ c →
      ∀ c₁ nonce id, RequestRecorded net cfg c c₁ nonce id →
      ∀ events c', runEvents (machine net) (body net cfg) .any c₁ events = some c' →
        c'.world.db.Intends nonce id ∨ ∃ events₁ events₂ c₂, events = events₁ ++ events₂ ∧
          runEvents (machine net) (body net cfg) .any c₁ events₁ = some c₂ ∧
          c₂.world.db.IntentEnded nonce id) ∧
    (∀ files c, FileReachable net cfg files c →
      ∀ c₁ nonce, FileRequestRecorded net cfg c c₁ nonce →
      ∀ events c', runEvents fileMachine (body net cfg) withoutExecutions c₁ events = some c' →
        c'.world.Intends nonce ∨ ∃ events₁ events₂ c₂, events = events₁ ++ events₂ ∧
          runEvents fileMachine (body net cfg) withoutExecutions c₁ events₁ = some c₂ ∧
          c₂.world.IntentEnded nonce) := by
  constructor
  · intro w₀ hfresh c hc c₁ nonce id hrec events c' hrun
    obtain ⟨_, _, _, hstep⟩ := hrec.step
    have hstart : c₁.world.db.Intends nonce id ∧ c₁.world.db.Unowned nonce :=
      ⟨hrec.after, hrec.unowned hfresh hc⟩
    have huntil := Reach.until (K := fun pid op w => op.Fits net cfg ∧ HeldOk cfg pid w op)
      (P := fun w => w.db.Intends nonce id ∧ w.db.Unowned nonce)
      (Q := fun w => w.db.IntentEnded nonce id)
      (fun hr hp => Reachable.held hr hp)
      (fun hr hk hx hp => by
        have heff := (exec_effect hx).2
        obtain ⟨r, hat, _, hintends⟩ := hp.1
        have hqueued : _ = true := Db.hasCandidate_iff.mpr
          ⟨r, (Db.rowAt_eq_some.mp hat).1, DeltaStatus.isCandidate_of_intends hintends⟩
        have hunowned := unowned_effect (Db.AttemptInv.of_reachable hfresh hr) heff hqueued hp.2
        exact (intends_effect hret hk.1 hk.2 heff hp.2 hp.1).imp_left (⟨·, hunowned⟩))
      (fun hact hp => by rwa [(act_effect hact).db])
      (hc.step _ hstep) hstart hrun
    exact huntil.imp_left And.left
  · intro files c hc c₁ nonce hrec events c' hrun
    obtain ⟨_, _, _, hstep⟩ := hrec.step
    exact Reach.until (K := fun _ op _ => op.Fits net cfg ∧ SnapshotOk op)
      (P := fun f => f.Intends nonce) (Q := fun f => f.IntentEnded nonce)
      (fun hr hp => FileReachable.held hr hp)
      (fun {_ pid _ ch _ _} _ hk hx hp =>
        Files.intends_exec hret hk.1 hk.2 (show fileExec pid _ ch _ = _ from hx) hp)
      (fun hact hp => by cases hact; exact hp)
      (hc.step _ hstep) hrec.after hrun


/-! ### A run of each backend -/

namespace Demo

/-- Whether the next call of `pid` is an abandon request on the nonce. -/
def requests {W : Type} (c : Conf Op Res W Request) (pid : Nat) (nonce : Nonce) : Bool :=
  match c.procs pid with
  | some (_, .call (.write (.requestCandidateAbandon n _ _)) _) => n == nonce
  | _ => false

theorem requesting_of_requests {W : Type} {c : Conf Op Res W Request} {pid : Nat} {nonce : Nonce}
    (h : requests c pid nonce = true) : Requesting c pid nonce := by
  unfold requests at h
  split at h
  · next req n new now k hp =>
    rw [← (beq_iff_eq.mp h : n = nonce)]
    exact ⟨req, new, now, k, hp⟩
  · cases h

instance (db : Db) (nonce : Nonce) (id : Nat) : Decidable (db.Intends nonce id) :=
  decidable_of_iff ((db.rowAt nonce).any (fun r => r.id == id && r.delta.status.intends) = true) (by
    simp [Db.Intends, Option.any_eq_true])

instance (files : Files) (nonce : Nonce) : Decidable (files.Intends nonce) :=
  decidable_of_iff ((files.pullDelta nonce).any (·.status.intends) = true) (by
    simp [Files.Intends, Option.any_eq_true])

/-- A push, a full pass up to the write of its retry counter, and an abandon
request up to its write. -/
def requested : List (Event Request Choice Act) :=
  pushed ++ [.env (.tick 20), .spawn 2 (.acquireLease "canon" "a" 30)] ++ calls 2 2 1 ++
    [.spawn 3 (.fullPass ⟨"canon", "a", 0⟩)] ++ calls 3 9 1 ++
    [.spawn 1 (.abandon 1 none)] ++ calls 1 7 1

/-- The pass writes the counter it computed before the request. -/
def counted : List (Event Request Choice Act) := calls 3 2 1

/-- The account's files with a queued candidate. -/
def files : Files where
  deltas := Table.empty.insert ⟨1, "s", some "st", "t", .newCandidate 100⟩
  superseded := []
  state := some ⟨"s", "s", some 0⟩
  metadata := some ⟨.midenFalconRpo ["old"], true, none, none⟩
  executions := []
  admission := none
  proposals := []

/-- Answers that let a request through. -/
def answer : (op : Op) → Res op
  | .query .metadataGet => some files.metadata
  | .query .pullState => some files.state
  | .query .loadActiveExecution => some none
  | .query _ => none
  | .write _ => none
  | .commit _ => none
  | .lease _ => none
  | .node _ => none
  | .begin _ => ()
  | .now => 100
  | .flag => false
  | .returns => ()

/-- `n` calls of a process on files. -/
def fileCalls (pid n : Nat) : List (Event Request FileChoice (Files → Files)) :=
  List.replicate n (.run pid ⟨9, false, 9, answer⟩)

end Demo

/-- A retry counter written over the request it does not know of. -/
theorem abandon_intent_never_lost_counted :
    0 < Demo.config.retainedTtlSeconds ∧
    (∃ c c₁ c', Reachable (.letters 0) Demo.config .any (Demo.world 0) c ∧
      RequestRecorded (.letters 0) Demo.config c c₁ 1 0 ∧
      runEvents (machine (.letters 0)) (body (.letters 0) Demo.config) .any c₁ Demo.counted = some c' ∧
      (c'.world.db.Intends 1 0 ∨ ∃ events₁ events₂ c₂, Demo.counted = events₁ ++ events₂ ∧
        runEvents (machine (.letters 0)) (body (.letters 0) Demo.config) .any c₁ events₁ = some c₂ ∧
        c₂.world.db.IntentEnded 1 0)) ∧
    (∃ c c₁, FileReachable (.letters 0) Demo.config Demo.files c ∧
      FileRequestRecorded (.letters 0) Demo.config c c₁ 1 ∧
      (c₁.world.Intends 1 ∨ ∃ events₁ events₂ c₂, [] = events₁ ++ events₂ ∧
        runEvents fileMachine (body (.letters 0) Demo.config) withoutExecutions c₁ events₁ = some c₂ ∧
        c₂.world.IntentEnded 1)) := by
  have hret : 0 < Demo.config.retainedTtlSeconds := by decide
  refine ⟨hret, ?_, ?_⟩
  · obtain ⟨c, hc, htest⟩ := Demo.reachable_after 0 .any (Demo.world 0) Demo.requested
      (fun c => Demo.requests c 1 1 && !decide (c.world.db.Intends 1 0) &&
        (step (machine (.letters 0)) (body (.letters 0) Demo.config) .any c (.run 1 {})).any (fun c₁ : SystemConf =>
          decide (c₁.world.db.Intends 1 0) &&
          (runEvents (machine (.letters 0)) (body (.letters 0) Demo.config) .any c₁
            Demo.counted).isSome)) (by decide +kernel)
    simp only [Bool.and_eq_true, Bool.not_eq_true', decide_eq_false_iff_not] at htest
    obtain ⟨⟨hreq, hbefore⟩, hstep⟩ := htest
    obtain ⟨c₁, hstep, hafter⟩ := (Option.any_eq_true ..).mp hstep
    simp only [Bool.and_eq_true, decide_eq_true_eq] at hafter
    obtain ⟨c', hrun⟩ := Option.isSome_iff_exists.mp hafter.2
    have hrec : RequestRecorded (.letters 0) Demo.config c c₁ 1 0 :=
      ⟨⟨1, {}, Demo.requesting_of_requests hreq, hstep⟩, hbefore, hafter.1⟩
    exact ⟨c, c₁, c', hc, hrec, hrun, (abandon_intent_never_lost _ _ hret).1 _
      (Demo.fresh_world 0) c hc c₁ 1 0 hrec _ c' hrun⟩
  · have htest : (runEvents fileMachine (body (.letters 0) Demo.config) withoutExecutions
        (.start Demo.files) (.spawn 1 (.abandon 1 none) :: Demo.fileCalls 1 7)).any (fun c : FileConf =>
          Demo.requests c 1 1 && !decide (c.world.Intends 1) &&
          (step fileMachine (body (.letters 0) Demo.config) withoutExecutions c
            (.run 1 ⟨9, false, 9, Demo.answer⟩)).any (fun c₁ : FileConf => decide (c₁.world.Intends 1))) = true := by
      decide +kernel
    obtain ⟨c, hrun, htest⟩ := (Option.any_eq_true ..).mp htest
    have hc : FileReachable (.letters 0) Demo.config Demo.files c := Reach.init.runEvents hrun
    simp only [Bool.and_eq_true, Bool.not_eq_true', decide_eq_false_iff_not] at htest
    obtain ⟨⟨hreq, hbefore⟩, hstep⟩ := htest
    obtain ⟨c₁, hstep, hafter⟩ := (Option.any_eq_true ..).mp hstep
    have hrec : FileRequestRecorded (.letters 0) Demo.config c c₁ 1 :=
      ⟨⟨1, _, Demo.requesting_of_requests hreq, hstep⟩, hbefore, of_decide_eq_true hafter⟩
    exact ⟨c, c₁, hc, hrec, (abandon_intent_never_lost _ _ hret).2 _ c hc c₁ 1 hrec [] c₁ rfl⟩

end Guardian
