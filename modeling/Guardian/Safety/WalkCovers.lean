import Guardian.ReleaseSweep.Rotation

/- A completed walk covers the requests it started under: when the store records
   sequence `s` as completed, every account that was sweepable from request `s`
   on has been checked by a visit that began after the request.

   Sequences serve as times. An account put on the list under sequence `v` was
   listed when request `s` was recorded if `v < s`, and a visit began after that
   request if the sequence was at least `s` by then. `Covered s` says that an
   account that was listed since request `s` was checked since; once true it
   stays true, for an account that leaves the list and comes back was not listed
   since (`exec_climbs`, `act_climbs`).

   What a rotation knows is `Sound`: the walk in progress has covered every
   account up to its cursor but those it could not check, its page leaves out no
   account up to the page's end, and a retry holds all that its walk left
   unchecked. -/
namespace Guardian.ReleaseSweep

open Interleaving BlockWatch

/-! ## Coverage -/

/-- If the account was listed since request `s`, it was checked since. -/
def Covered (s : Nat) (w : World) (accountId : String) : Prop :=
  ∀ v, w.listedUnder accountId = some v → v < s → s ≤ w.checkedUnder accountId

theorem Covered.of_le {s s' : Nat} {w : World} {accountId : String} (h : Covered s w accountId)
    (hle : s' ≤ s) : Covered s' w accountId := by
  intro v hv hlt
  have hchecked := h v hv (by omega)
  omega

theorem Covered.of_unlisted {s : Nat} {w : World} {accountId : String}
    (h : w.listedUnder accountId = none) : Covered s w accountId := by
  intro v hv
  rw [h] at hv
  cases hv

/-- Listed accounts are those put on the list, and sequences fit their column. -/
structure Listed (w : World) : Prop where
  listed : ∀ {accountId}, accountId ∉ w.fleet → w.listedUnder accountId = none
  fits : w.requested ≤ i64Max

/-- Requests are never taken back, and what is covered stays covered. -/
structure Climbs (w w' : World) : Prop where
  requested : w.requested ≤ w'.requested
  covered : ∀ {s accountId}, s ≤ w.requested → Covered s w accountId → Covered s w' accountId

namespace Climbs

theorem refl (w : World) : Climbs w w := ⟨Nat.le_refl _, fun _ h => h⟩

theorem trans {a b c : World} (h : Climbs a b) (h' : Climbs b c) : Climbs a c :=
  ⟨Nat.le_trans h.requested h'.requested,
    fun hs hc => h'.covered (Nat.le_trans hs h.requested) (h.covered hs hc)⟩

theorem of_same {w w' : World} (hreq : w.requested ≤ w'.requested)
    (hlisted : w'.listedUnder = w.listedUnder) (hchecked : w'.checkedUnder = w.checkedUnder) :
    Climbs w w' := by
  refine ⟨hreq, fun _ hc v hv hlt => ?_⟩
  rw [hlisted] at hv
  rw [hchecked]
  exact hc v hv hlt

end Climbs

theorem climbs_request {w : World} {walks : WalkRequests} (hw : Listed w)
    (h : BlockWatch.requestWalk w.backend w.walks = some walks) :
    Listed { w with walks := some walks } ∧ Climbs w { w with walks := some walks } := by
  obtain ⟨hle, hmax, -⟩ := requestWalk_spec h hw.fits
  exact ⟨⟨hw.listed, hmax⟩, .of_same hle rfl rfl⟩

theorem climbs_complete {w : World} (hw : Listed w) (startedUnder : Nat) :
    Listed { w with walks := BlockWatch.completeWalk startedUnder w.walks } ∧
      Climbs w { w with walks := BlockWatch.completeWalk startedUnder w.walks } := by
  have hsame : requestedSeq (BlockWatch.completeWalk startedUnder w.walks) = w.requested :=
    requestedSeq_completeWalk startedUnder w.walks
  refine ⟨⟨hw.listed, ?_⟩, .of_same ?_ rfl rfl⟩
  · show requestedSeq (BlockWatch.completeWalk startedUnder w.walks) ≤ i64Max
    rw [hsame]
    exact hw.fits
  · show w.requested ≤ requestedSeq (BlockWatch.completeWalk startedUnder w.walks)
    rw [hsame]

/-- A visit that checked an account covers it more. -/
theorem climbs_checked {w : World} (hw : Listed w) (accountId : String) (begunUnder : Nat) :
    Listed (w.noteChecked accountId begunUnder) ∧ Climbs w (w.noteChecked accountId begunUnder) := by
  refine ⟨⟨hw.listed, hw.fits⟩, Nat.le_refl _, fun {s a} _ hc v hv hlt => ?_⟩
  have hchecked := hc v hv hlt
  by_cases ha : a = accountId
  · subst ha
    simp only [World.noteChecked, Function.update_self]
    omega
  · simpa only [World.noteChecked, Function.update_of_ne ha] using hchecked

/-- Every call climbs. -/
theorem exec_climbs {op : Op} {ch : Choice} {w w' : World} {r : Res op}
    (h : exec op ch w = some (r, w')) (hw : Listed w) : Listed w' ∧ Climbs w w' := by
  have hsame : Listed w ∧ Climbs w w := ⟨hw, .refl w⟩
  cases op with
  | endVisit accountId begunUnder =>
    cases ch with
    | outcome outcome =>
      simp only [exec, Option.some.injEq, Prod.mk.injEq] at h
      obtain ⟨-, rfl⟩ := h
      split
      · exact climbs_checked hw accountId begunUnder
      · exact hsame
    | _ => cases h
  | requestWalk =>
    cases ch with
    | done =>
      obtain ⟨walks, hwalks, heq⟩ := Option.map_eq_some_iff.mp h
      cases heq
      exact climbs_request hw hwalks
    | lost =>
      obtain ⟨walks, hwalks, heq⟩ := Option.map_eq_some_iff.mp h
      cases heq
      exact climbs_request hw hwalks
    | stale =>
      simp only [exec] at h
      split at h
      · cases h; exact hsame
      · cases h
    | failed => cases h; exact hsame
    | _ => cases h
  | completeWalk startedUnder =>
    cases ch with
    | done => cases h; exact climbs_complete hw startedUnder
    | lost => cases h; exact climbs_complete hw startedUnder
    | stale =>
      simp only [exec] at h
      split at h
      · cases h; exact hsame
      · cases h
    | failed => cases h; exact hsame
    | _ => cases h
  | _ => cases ch <;> cases h <;> exact hsame

/-- So does everything beside the workers: an account that is put on the list is
not listed since any request so far. -/
theorem act_climbs {a : Act} {w w' : World} (h : act a w = some w') (hw : Listed w) :
    Listed w' ∧ Climbs w w' := by
  cases a with
  | request =>
    obtain ⟨walks, hwalks, rfl⟩ := Option.map_eq_some_iff.mp h
    exact climbs_request hw hwalks
  | list accountId =>
    simp only [act] at h
    split at h
    · cases h
    · next hnew =>
      cases h
      have hnone : w.fleet.find? accountId = none := by simpa using hnew
      refine ⟨⟨fun {a} ha => ?_, hw.fits⟩, Nat.le_refl _, fun {s a} hs hc v hv hlt => ?_⟩
      · rw [Table.mem_insert hnone, not_or] at ha
        simpa only [Function.update_of_ne ha.1] using hw.listed ha.2
      · by_cases ha : a = accountId
        · subst ha
          simp only [Function.update_self, Option.some.injEq] at hv
          omega
        · simp only [Function.update_of_ne ha] at hv
          exact hc v hv hlt
  | unlist accountId =>
    cases h
    refine ⟨⟨fun {a} ha => ?_, hw.fits⟩, Nat.le_refl _, fun {s a} hs hc => ?_⟩
    · by_cases heq : a = accountId
      · subst heq
        exact Function.update_self ..
      · simp only [Function.update_of_ne heq]
        apply hw.listed
        intro hmem
        apply ha
        rw [Table.mem_delete]
        exact ⟨hmem, by simpa using heq⟩
    · by_cases heq : a = accountId
      · subst heq
        exact Covered.of_unlisted (Function.update_self ..)
      · intro v hv hlt
        simp only [Function.update_of_ne heq] at hv
        exact hc v hv hlt

/-- A worker records a walk as completed only when it covers every account. -/
def discipline : Discipline Op World where
  inv := Listed
  le := Climbs
  ok := fun _ op w =>
    match op with
    | .completeWalk startedUnder =>
      startedUnder ≤ w.requested ∧ ∀ accountId, Covered startedUnder w accountId
    | _ => True
  le_refl := Climbs.refl
  le_trans := Climbs.trans

theorem discipline_kept : discipline.Kept machine (fun _ => True) where
  call := fun _ _ hx hw => exec_climbs hx hw
  act := fun hx hw => act_climbs hx hw

/-! ## What a rotation knows -/

/-- The fields that say how far a rotation is. -/
def Rotation.progress (r : Rotation) :=
  (r.pageSize, r.startedUnder, r.startedAt, r.cursor, r.buffer, r.retry, r.completedUnder,
    r.unchecked, r.uncheckedIds)

/-- The walk in progress, which started under sequence `bound` or later: an
account up to the cursor is covered or was noted as unchecked (as long as all of
those were), and so is one up to the end of the page, or else the page has it. -/
structure Walking (r : Rotation) (w : World) (bound : Nat) : Prop where
  started : bound ≤ w.requested
  under : ∀ {n}, r.startedUnder = some n → n ≤ bound
  retried : ∀ {retry}, r.retry = some retry → retry.startedUnder ≤ bound
  ids_le : r.uncheckedIds.length ≤ r.unchecked
  ascending : r.buffer.Pairwise (· < ·)
  past : ∀ {c a}, r.cursor = some c → a ∈ r.buffer → c < a
  passed : r.uncheckedIds.length = r.unchecked → ∀ {c a}, r.cursor = some c → a ≤ c →
    a ∈ r.uncheckedIds ∨ Covered bound w a
  ahead : ∀ {a b}, b ∈ r.buffer → a ≤ b → (∀ c, r.cursor = some c → c < a) →
    a ∈ r.buffer ∨ Covered bound w a

/-- What a rotation knows of the world. -/
structure Sound (r : Rotation) (w : World) : Prop where
  paged : 0 < r.pageSize
  under : ∀ {n}, r.startedUnder = some n → n ≤ w.requested
  idle : r.startedAt = none → r.cursor = none ∧ r.buffer = []
  walk : r.startedAt ≠ none → ∃ bound, Walking r w bound
  retry : ∀ {retry}, r.retry = some retry → retry.startedUnder ≤ w.requested ∧
    ∀ a, a ∈ retry.accounts ∨ a ∈ retry.unchecked ∨ Covered retry.startedUnder w a
  completed : ∀ {n}, r.completedUnder = some n → n ≤ w.requested ∧ ∀ a, Covered n w a

theorem Walking.climb {r : Rotation} {w w' : World} {bound : Nat} (h : Walking r w bound)
    (hle : Climbs w w') : Walking r w' bound where
  started := Nat.le_trans h.started hle.requested
  under := h.under
  retried := h.retried
  ids_le := h.ids_le
  ascending := h.ascending
  past := h.past
  passed := fun hall _ _ hc ha =>
    (h.passed hall hc ha).imp_right (hle.covered h.started)
  ahead := fun hb ha hc => (h.ahead hb ha hc).imp_right (hle.covered h.started)

namespace Sound
variable {r : Rotation} {w w' : World}

theorem climb (h : Sound r w) (hle : Climbs w w') : Sound r w' where
  paged := h.paged
  under := fun hn => Nat.le_trans (h.under hn) hle.requested
  idle := h.idle
  walk := fun hs => (h.walk hs).imp fun _ hw => hw.climb hle
  retry := fun hr => by
    obtain ⟨hunder, hall⟩ := h.retry hr
    refine ⟨Nat.le_trans hunder hle.requested, fun a => ?_⟩
    exact (hall a).imp_right fun ha => ha.imp_right (hle.covered hunder)
  completed := fun hn =>
    ⟨Nat.le_trans (h.completed hn).1 hle.requested,
      fun a => hle.covered (h.completed hn).1 ((h.completed hn).2 a)⟩

/-- A new rotation knows nothing. -/
theorem new (cfg : ReleaseSweepConfig) (now : Instant) (w : World) :
    Sound (Rotation.new cfg now) w where
  paged := Nat.lt_of_lt_of_le Nat.one_pos (Nat.le_max_right _ _)
  under := fun hn => by cases hn
  idle := fun _ => ⟨rfl, rfl⟩
  walk := fun hs => absurd rfl hs
  retry := fun hr => by cases hr
  completed := fun hn => by cases hn

/-- The rest of a rotation is pacing. -/
theorem of_progress {r' : Rotation} (h : Sound r w) (heq : r'.progress = r.progress) :
    Sound r' w := by
  simp only [Rotation.progress, Prod.mk.injEq] at heq
  obtain ⟨hpage, hunder, hstarted, hcursor, hbuffer, hretry, hcompleted, hunchecked, hids⟩ := heq
  refine ⟨hpage ▸ h.paged, hunder ▸ h.under, ?_, ?_, hretry ▸ h.retry, hcompleted ▸ h.completed⟩
  · rw [hstarted, hcursor, hbuffer]
    exact h.idle
  · rw [hstarted]
    intro hs
    obtain ⟨bound, hw⟩ := h.walk hs
    exact ⟨bound, hw.started, hunder ▸ hw.under, hretry ▸ hw.retried,
      by rw [hids, hunchecked]; exact hw.ids_le, hbuffer ▸ hw.ascending,
      by rw [hcursor, hbuffer]; exact hw.past, by rw [hids, hunchecked, hcursor]; exact hw.passed,
      by rw [hcursor, hbuffer]; exact hw.ahead⟩

/-- A request changes only when the next walk starts. -/
theorem request (h : Sound r w) (now : Instant) : Sound (r.request now) w := by
  unfold Rotation.request
  split
  · exact h.of_progress rfl
  · split <;> exact h.of_progress rfl

/-- A walk starts: it is at the front of the fleet, and nothing is unchecked. -/
theorem start (h : Sound r w) (hidle : r.startedAt = none) (now : Instant) :
    Sound { r with startedAt := some now, visited := 0, unchecked := 0, uncheckedIds := [] } w where
  paged := h.paged
  under := h.under
  idle := fun hs => by cases hs
  walk := fun _ => by
    obtain ⟨hcursor, hbuffer⟩ := h.idle hidle
    refine ⟨w.requested, Nat.le_refl _, h.under, fun hr => (h.retry hr).1, Nat.le_refl _, ?_, ?_,
      fun _ _ _ hc => ?_, fun hb => ?_⟩
    · rw [hbuffer]
      exact .nil
    · intro c a hc
      rw [hcursor] at hc
      cases hc
    · rw [hcursor] at hc
      cases hc
    · rw [hbuffer] at hb
      cases hb
  retry := h.retry
  completed := h.completed

/-- A page that was listed now leaves out no listed account up to its end. -/
theorem refill (h : Sound r w) (hw : Listed w) (hstarted : r.startedAt ≠ none)
    (limit : Nat) : Sound { r with buffer := w.fleet.page r.cursor limit } w where
  paged := h.paged
  under := h.under
  idle := fun hs => absurd hs hstarted
  walk := fun hs => by
    obtain ⟨bound, hwalk⟩ := h.walk hs
    refine ⟨bound, hwalk.started, hwalk.under, hwalk.retried, hwalk.ids_le,
      w.fleet.sorted_page r.cursor limit, fun hc ha => (Table.mem_of_mem_page ha).2 _ hc,
      hwalk.passed, fun {a b} hb hle hc => ?_⟩
    by_cases hmem : a ∈ w.fleet
    · exact .inl (Table.mem_page_of_le hmem hc hb hle)
    · exact .inr (.of_unlisted (hw.listed hmem))
  retry := h.retry
  completed := h.completed

/-- At the end of the fleet, whatever is not covered was noted as unchecked. -/
theorem exhausted (h : Sound r w) (hw : Listed w) (hstarted : r.startedAt ≠ none)
    (hempty : w.fleet.page r.cursor r.pageSize = []) :
    ∃ bound, bound ≤ w.requested ∧ (∀ {n}, r.startedUnder = some n → n ≤ bound) ∧
      (∀ {retry}, r.retry = some retry → retry.startedUnder ≤ bound) ∧
      (r.uncheckedIds.length = r.unchecked → ∀ a, a ∈ r.uncheckedIds ∨ Covered bound w a) := by
  obtain ⟨bound, hwalk⟩ := h.walk hstarted
  refine ⟨bound, hwalk.started, hwalk.under, hwalk.retried, fun hall a => ?_⟩
  by_cases hpast : ∀ c, r.cursor = some c → c < a
  · exact .inr (.of_unlisted (hw.listed (Table.not_mem_of_page_eq_nil h.paged hempty hpast)))
  · rw [not_forall] at hpast
    obtain ⟨c, hc⟩ := hpast
    rw [Classical.not_imp, not_lt] at hc
    exact hwalk.passed hall hc.1 hc.2

/-- A visit of the page's first account: it is covered, or noted if all are. -/
theorem advance {x : String} {rest : List String} (ids : List String) {n : Nat} (h : Sound r w)
    (hle : Climbs w w') (hstarted : r.startedAt ≠ none) (hbuffer : r.buffer = x :: rest)
    (hn : ids.length ≤ n)
    (hids : ids.length = n → r.uncheckedIds.length = r.unchecked ∧
      (∀ {a}, a ∈ r.uncheckedIds → a ∈ ids) ∧
      (x ∈ ids ∨ ∀ {s}, s ≤ w.requested → Covered s w' x)) :
    Sound { r with buffer := rest, cursor := some x, unchecked := n, uncheckedIds := ids } w' := by
  have h' := h.climb hle
  obtain ⟨bound, hwalk⟩ := h.walk hstarted
  have hwalk' := hwalk.climb hle
  have hasc := hwalk.ascending
  rw [hbuffer, List.pairwise_cons] at hasc
  -- between the cursor and the account there is nothing left to cover
  have hbetween : ∀ {a}, a < x → (∀ c, r.cursor = some c → c < a) → Covered bound w' a := by
    intro a ha hc
    obtain hmem | hcov := hwalk'.ahead (b := x) (by rw [hbuffer]; exact List.mem_cons_self)
      (le_of_lt ha) hc
    · rw [hbuffer] at hmem
      obtain rfl | hmem := List.mem_cons.mp hmem
      · exact absurd ha (lt_irrefl _)
      · exact absurd ha (lt_asymm (hasc.1 a hmem))
    · exact hcov
  refine ⟨h'.paged, h'.under, fun hs => absurd hs hstarted, fun _ => ?_, h'.retry, h'.completed⟩
  refine ⟨bound, hwalk'.started, hwalk'.under, hwalk'.retried, hn, hasc.2, ?_, ?_, ?_⟩
  · rintro c a hc ha
    obtain rfl := Option.some.inj hc
    exact hasc.1 a ha
  · intro hall c a hc ha
    obtain rfl := Option.some.inj hc
    obtain ⟨hall', hkept, hx⟩ := hids hall
    obtain rfl | ha := eq_or_lt_of_le ha
    · exact hx.imp_right fun hcov => hcov hwalk.started
    by_cases hpast : ∀ c, r.cursor = some c → c < a
    · exact .inr (hbetween ha hpast)
    · rw [not_forall] at hpast
      obtain ⟨c, hc⟩ := hpast
      rw [Classical.not_imp, not_lt] at hc
      exact (hwalk'.passed hall' hc.1 hc.2).imp_left hkept
  · intro a b hb hab hc
    have hxa : x < a := hc x rfl
    have hmem := hwalk'.ahead (a := a) (b := b) (by rw [hbuffer]; exact List.mem_cons_of_mem _ hb)
      hab fun c hc => lt_trans (hwalk.past hc (by rw [hbuffer]; exact List.mem_cons_self)) hxa
    rw [hbuffer] at hmem
    exact hmem.imp_left fun ha => (List.mem_cons.mp ha).resolve_left (ne_of_gt hxa)

/-- A retry of the same walk that accounts for every account. -/
theorem withRetry {retry : Retry} (retry' : Retry) (h : Sound r w) (hretry : r.retry = some retry)
    (hunder : retry'.startedUnder = retry.startedUnder)
    (hall : ∀ a, a ∈ retry'.accounts ∨ a ∈ retry'.unchecked ∨ Covered retry.startedUnder w a) :
    Sound { r with retry := some retry' } w where
  paged := h.paged
  under := h.under
  idle := h.idle
  walk := fun hs => by
    obtain ⟨bound, hwalk⟩ := h.walk hs
    refine ⟨bound, hwalk.started, hwalk.under, fun hr => ?_, hwalk.ids_le, hwalk.ascending,
      hwalk.past, hwalk.passed, hwalk.ahead⟩
    obtain rfl := Option.some.inj hr
    rw [hunder]
    exact hwalk.retried hretry
  retry := fun hr => by
    obtain rfl := Option.some.inj hr
    rw [hunder]
    exact ⟨(h.retry hretry).1, hall⟩
  completed := h.completed

/-- A retry with nothing left covers every account. -/
theorem retryDone {retry : Retry} (h : Sound r w) (hretry : r.retry = some retry)
    (haccounts : retry.accounts = []) (hunchecked : retry.unchecked = []) :
    Sound { r with completedUnder := some retry.startedUnder, retry := none } w where
  paged := h.paged
  under := h.under
  idle := h.idle
  walk := fun hs => by
    obtain ⟨bound, hwalk⟩ := h.walk hs
    exact ⟨bound, hwalk.started, hwalk.under, fun hr => (by cases hr), hwalk.ids_le,
      hwalk.ascending, hwalk.past, hwalk.passed, hwalk.ahead⟩
  retry := fun hr => by cases hr
  completed := fun hn => by
    obtain rfl := Option.some.inj hn
    obtain ⟨hunder, hall⟩ := h.retry hretry
    refine ⟨hunder, fun a => ?_⟩
    obtain ha | ha | ha := hall a
    · rw [haccounts] at ha
      cases ha
    · rw [hunchecked] at ha
      cases ha
    · exact ha

theorem forgetCompleted (h : Sound r w) : Sound { r with completedUnder := none } w where
  paged := h.paged
  under := h.under
  idle := h.idle
  walk := fun hs => by
    obtain ⟨bound, hwalk⟩ := h.walk hs
    exact ⟨bound, hwalk.started, hwalk.under, hwalk.retried, hwalk.ids_le, hwalk.ascending,
      hwalk.past, hwalk.passed, hwalk.ahead⟩
  retry := h.retry
  completed := fun hn => by cases hn

end Sound

/-- What settling a completed walk can do: at most the retry is replaced, by the
accounts this walk noted as unchecked if those are all. -/
theorem settle_spec (cfg : ReleaseSweepConfig) (now : Instant) (requested requestedAgain : Bool)
    (startedUnder retryUnder : Option Nat) (ids : List String) (r : Rotation) :
    let r' := (r.settle cfg now requested requestedAgain startedUnder retryUnder ids).1
    (r'.pageSize = r.pageSize ∧ r'.startedUnder = r.startedUnder ∧ r'.startedAt = r.startedAt ∧
      r'.cursor = r.cursor ∧ r'.buffer = r.buffer ∧ r'.completedUnder = r.completedUnder) ∧
    (r'.retry = r.retry ∨ r'.retry = none ∨ ∃ seq dueAt, startedUnder = some seq ∧
      ids.length = r.unchecked ∧ r'.retry = some ⟨seq, ids, [], dueAt, 0⟩) := by
  unfold Rotation.settle
  dsimp only
  split
  · exact ⟨⟨rfl, rfl, rfl, rfl, rfl, rfl⟩, .inl rfl⟩
  · split
    · split
      · split
        · next seq hids =>
          exact ⟨⟨rfl, rfl, rfl, rfl, rfl, rfl⟩, .inr (.inr ⟨seq, _, rfl, hids, rfl⟩)⟩
        · exact ⟨⟨rfl, rfl, rfl, rfl, rfl, rfl⟩, .inr (.inl rfl)⟩
      · exact ⟨⟨rfl, rfl, rfl, rfl, rfl, rfl⟩, .inr (.inl rfl)⟩
    · split
      · exact ⟨⟨rfl, rfl, rfl, rfl, rfl, rfl⟩, .inl rfl⟩
      · split
        · exact ⟨⟨rfl, rfl, rfl, rfl, rfl, rfl⟩, .inl rfl⟩
        · exact ⟨⟨rfl, rfl, rfl, rfl, rfl, rfl⟩, .inl rfl⟩

/-- What a completed walk leaves: no walk; with everything checked, the sequence
it or the retry started under, and no retry; and otherwise the retry that was
there, none, or one with all that is unchecked. -/
theorem complete_spec (cfg : ReleaseSweepConfig) (now : Instant) (r : Rotation) :
    (r.complete cfg now).pageSize = r.pageSize ∧ (r.complete cfg now).startedUnder = none ∧
    (r.complete cfg now).startedAt = none ∧ (r.complete cfg now).cursor = none ∧
    (r.complete cfg now).buffer = [] ∧
    (∀ {n}, (r.complete cfg now).completedUnder = some n → r.unchecked = 0 ∧
      (r.startedUnder = some n ∨ r.retry.map (·.startedUnder) = some n)) ∧
    (∀ {retry}, (r.complete cfg now).retry = some retry → r.retry = some retry ∨
      ∃ seq dueAt, r.startedUnder = some seq ∧ r.uncheckedIds.length = r.unchecked ∧
        retry = ⟨seq, r.uncheckedIds, [], dueAt, 0⟩) := by
  obtain ⟨⟨hpage, hunder, hstarted, hcursor, hbuffer, hcompleted⟩, hretry⟩ :=
    settle_spec cfg now r.requested r.requestedAfterCurrent r.startedUnder
      (r.retry.map (·.startedUnder)) r.uncheckedIds r.forgetWalk
  refine ⟨hpage, hunder, hstarted, hcursor, hbuffer, fun {n} hn => ?_, fun {retry} hr => ?_⟩
  · have hn' : (if r.unchecked = 0 then r.startedUnder.or (r.retry.map (·.startedUnder))
        else none) = some n := hcompleted.symm.trans hn
    split at hn'
    · next hzero => exact ⟨hzero, (Option.or_eq_some_iff.mp hn').imp_right And.right⟩
    · cases hn'
  · obtain hr' | hr' | ⟨seq, dueAt, hseq, hids, hr'⟩ := hretry
    · have hkept : (if r.unchecked = 0 then none else r.retry) = some retry := hr'.symm.trans hr
      split at hkept
      · cases hkept
      · exact .inl hkept
    · cases hr'.symm.trans hr
    · obtain rfl := Option.some.inj (hr'.symm.trans hr)
      exact .inr ⟨seq, dueAt, hseq, hids, rfl⟩

/-- A walk that reached the end of the fleet leaves a sound rotation. -/
theorem Sound.complete {r : Rotation} {w : World} (h : Sound r w) (hw : Listed w)
    (hstarted : r.startedAt ≠ none) (hempty : w.fleet.page r.cursor r.pageSize = [])
    (cfg : ReleaseSweepConfig) (now : Instant) : Sound (r.complete cfg now) w := by
  obtain ⟨bound, hbound, hunder, hretried, hall⟩ := h.exhausted hw hstarted hempty
  obtain ⟨hpage, hunder', hstarted', hcursor, hbuffer, hcompleted, hretry⟩ :=
    complete_spec cfg now r
  obtain ⟨_, hwalk⟩ := h.walk hstarted
  refine ⟨by rw [hpage]; exact h.paged, fun hn => ?_, fun _ => ⟨hcursor, hbuffer⟩,
    fun hs => absurd hstarted' hs, fun hr => ?_, fun {n} hn => ?_⟩
  · rw [hunder'] at hn
    cases hn
  · obtain hr | ⟨seq, dueAt, hseq, hids, rfl⟩ := hretry hr
    · exact h.retry hr
    · refine ⟨h.under hseq, fun a => ?_⟩
      obtain ha | ha := hall hids a
      · exact .inl ha
      · exact .inr (.inr (ha.of_le (hunder hseq)))
  · -- nothing was left unchecked, so every account is covered
    obtain ⟨hzero, hn⟩ := hcompleted hn
    have hnil : r.uncheckedIds = [] := by
      have := hwalk.ids_le
      exact List.eq_nil_of_length_eq_zero (by omega)
    have hle : n ≤ bound := by
      obtain hn | hn := hn
      · exact hunder hn
      · obtain ⟨retry, hr, rfl⟩ := Option.map_eq_some_iff.mp hn
        exact hretried hr
    refine ⟨Nat.le_trans hle hbound, fun a => ?_⟩
    obtain ha | ha := hall (by rw [hnil, hzero]; rfl) a
    · rw [hnil] at ha
      cases ha
    · exact ha.of_le hle

/-! ## The worker's programs -/

section Programs
variable {pid : Nat} {w : World} {α β : Type}

/-- A call that records no completed walk. -/
def Quiet : Op → Prop
  | .completeWalk _ => False
  | _ => True

theorem quiet_ok {o : Op} (h : Quiet o) (w : World) : discipline.ok pid o w := by
  cases o <;> trivial

/-- A part of a program that records no completed walk. -/
theorem wp_quiet {K : α → Prop} {p : SweepProg α} {f : α → SweepProg β} {Q : β → World → Prop}
    (hp : p.Calls Quiet) (hr : p.Results K)
    (hf : ∀ a w', K a → Climbs w w' → wp machine discipline pid (f a) Q w') :
    wp machine discipline pid (p >>= f) Q w :=
  wp_bind (wp_mono (wp_of_results hp hr fun _ w' ho _ => quiet_ok ho w')
    fun a w' hle hK => hf a w' hK hle)

theorem wp_ask {o : Op} {f : Res o → SweepProg β} {Q : β → World → Prop} (ho : Quiet o)
    (hf : ∀ a w', Climbs w w' → wp machine discipline pid (f a) Q w') :
    wp machine discipline pid (call o >>= f) Q w :=
  wp_quiet (K := fun _ => True) (Prog.Calls.op' ho) Prog.Results.trivial
    fun a w' _ hle => hf a w' hle

/-- A visit that checked its account covers it, for every request before it. -/
theorem visit_wp (accountId : String) :
    wp machine discipline pid (visit accountId) (fun outcome w' =>
      outcome = .checked → ∀ {s}, s ≤ w.requested → Covered s w' accountId) w := by
  intro w₁ hle _
  refine ⟨trivial, fun ch begunUnder w₂ hx _ _ => ?_⟩
  have hbegun : begunUnder = w₁.requested := by
    cases ch with
    | done => cases hx; rfl
    | _ => cases hx
  intro w₃ _ _
  refine ⟨trivial, fun ch outcome w₄ hx' _ _ => ?_⟩
  intro houtcome s hs
  cases ch with
  | outcome o =>
    simp only [machine, exec, Option.some.injEq, Prod.mk.injEq] at hx'
    obtain ⟨rfl, rfl⟩ := hx'
    rw [if_pos houtcome]
    intro v _ _
    have hreq := hle.requested
    have hbefore : s ≤ begunUnder := by
      rw [hbegun]
      omega
    simp only [World.noteChecked, Function.update_self]
    exact Nat.le_trans hbefore (Nat.le_max_right _ _)
  | _ => cases hx'

theorem visit_calls (accountId : String) : (visit accountId).Calls Quiet :=
  ⟨trivial, fun _ => ⟨trivial, fun _ => trivial⟩⟩

/-- The sequence a walk starts under was requested. -/
theorem walkSequence_wp :
    wp machine discipline pid walkSequence (fun startedUnder w' =>
      ∀ {n}, startedUnder = some n → n ≤ w'.requested) w := by
  intro w₁ _ _
  refine ⟨trivial, fun ch answer w₂ hx _ _ => ?_⟩
  cases ch with
  | done =>
    cases hx
    intro n hn
    exact Nat.le_of_eq (Option.some.inj hn).symm
  | failed =>
    cases hx
    intro n hn
    cases hn
  | _ => cases hx

/-- The accounts up to the one just visited are covered or noted. -/
theorem visitNext_wp {r : Rotation} (h : Sound r w) (hstarted : r.startedAt ≠ none)
    (now : Instant) :
    wp machine discipline pid (visitNext now r) (fun r' w' => Sound r' w') w := by
  unfold visitNext
  split
  · exact h
  · next accountId buffer hbuffer =>
    refine wp_bind (wp_mono (visit_wp accountId) fun outcome w' hle hvisit => ?_)
    obtain ⟨_, hwalk⟩ := h.walk hstarted
    have hids := hwalk.ids_le
    dsimp only
    split
    · next hchecked =>
      have hadvance := h.advance r.uncheckedIds hle hstarted hbuffer hids fun hall =>
        ⟨hall, fun ha => ha, .inr (hvisit hchecked)⟩
      exact hadvance.of_progress rfl
    · split
      · have hadvance := h.advance (r.uncheckedIds ++ [accountId]) hle hstarted hbuffer
          (n := r.unchecked + 1) (by simpa using hids) fun hall =>
          ⟨by simpa using hall, fun ha => List.mem_append_left _ ha, .inl (by simp)⟩
        exact hadvance.of_progress rfl
      · have hadvance := h.advance r.uncheckedIds hle hstarted hbuffer
          (n := r.unchecked + 1) (by omega) fun hall => by omega
        exact hadvance.of_progress rfl

/-- The end of a round: done, or all that is unchecked again. -/
theorem endRound_wp {r : Rotation} {retry : Retry} (cfg : ReleaseSweepConfig) (h : Sound r w)
    (hretry : r.retry = some retry) (haccounts : retry.accounts = []) :
    wp machine discipline pid (endRound cfg retry r) (fun r' w' => Sound r' w') w := by
  unfold endRound
  split
  · next hempty => exact h.retryDone hretry haccounts (List.isEmpty_iff.mp hempty)
  · refine wp_ask (o := .now) trivial fun now w' hle => ?_
    have h' := h.climb hle
    refine h'.withRetry _ hretry rfl fun a => ?_
    obtain ha | ha | ha := (h'.retry hretry).2 a
    · rw [haccounts] at ha
      cases ha
    · exact .inl ha
    · exact .inr (.inr ha)

/-- A retry round: every account of the walk is covered, still to be visited, or
unchecked again. -/
theorem visitRetried_wp {r : Rotation} (h : Sound r w) (cfg : ReleaseSweepConfig)
    (now : Instant) :
    wp machine discipline pid (visitRetried cfg now r) (fun r' w' => Sound r' w') w := by
  unfold visitRetried
  split
  · exact h
  · next retry hretry =>
    split
    · exact h
    · next accountId accounts haccounts =>
      refine wp_bind (wp_mono (visit_wp accountId) fun outcome w' hle hvisit => ?_)
      obtain ⟨hunder, hall⟩ := h.retry hretry
      have h' := h.climb hle
      dsimp only
      have hround : ∀ a, a ∈ accounts ∨
          a ∈ (if outcome = .checked then retry.unchecked else retry.unchecked ++ [accountId]) ∨
          Covered retry.startedUnder w' a := by
        intro a
        obtain ha | ha | ha := hall a
        · rw [haccounts] at ha
          obtain rfl | ha := List.mem_cons.mp ha
          · by_cases hchecked : outcome = .checked
            · exact .inr (.inr (hvisit hchecked hunder))
            · exact .inr (.inl (by simp [hchecked]))
          · exact .inl ha
        · by_cases hchecked : outcome = .checked
          · exact .inr (.inl (by simpa [hchecked] using ha))
          · exact .inr (.inl (by simp [hchecked, ha]))
        · exact .inr (.inr (hle.covered hunder ha))
      let retry' : Retry :=
        { retry with
          accounts := accounts
          unchecked :=
            if outcome = .checked then retry.unchecked else retry.unchecked ++ [accountId] }
      have hnext : Sound { r with retry := some retry', nextTurn := now + r.spacing } w' :=
        (h'.withRetry retry' hretry rfl hround).of_progress rfl
      split
      · next hempty =>
        obtain rfl : accounts = [] := List.isEmpty_iff.mp hempty
        refine wp_bind (wp_mono (endRound_wp cfg hnext rfl rfl) fun r' w₂ _ hsound => ?_)
        show Sound (if r'.startedAt.isNone then { r' with nextTurn := r'.idleUntil } else r') w₂
        split
        · exact hsound.of_progress rfl
        · exact hsound
      · exact hnext

/-- The walk's part of a step. -/
theorem walkStep_wp {r : Rotation} (h : Sound r w) (hstarted : r.startedAt ≠ none)
    (cfg : ReleaseSweepConfig) (now : Instant) :
    wp machine discipline pid (walkStep cfg now r) (fun x w' => Sound x.2 w') w := by
  unfold walkStep
  split
  · refine wp_ask (o := .fleetSize) trivial fun size w₁ hle₁ => ?_
    have h₁ := h.climb hle₁
    cases size with
    | none => exact h₁
    | some fleetSize =>
      have hpaced : Sound { r with spacing := max (cfg.spacingFor fleetSize) cfg.minSpacing } w₁ :=
        h₁.of_progress rfl
      intro w₂ hle₂ hlisted₂
      refine ⟨trivial, fun ch page w₃ hx hlisted₃ hle₃ => ?_⟩
      have hpaced₂ := hpaced.climb hle₂
      cases ch with
      | done =>
        cases hx
        dsimp only
        cases hpage : w₂.fleet.page r.cursor r.pageSize with
        | nil =>
          refine wp_ask (o := .now) trivial fun completedAt w₄ hle₄ => ?_
          exact (hpaced₂.complete hlisted₂ hstarted hpage cfg completedAt).climb hle₄
        | cons accountId page =>
          have hrefill := hpaced₂.refill hlisted₂ hstarted r.pageSize
          dsimp only at hrefill
          rw [hpage] at hrefill
          exact wp_bind (wp_mono (visitNext_wp hrefill hstarted now) fun _ _ _ hsound => hsound)
      | failed =>
        cases hx
        exact hpaced₂
      | _ => cases hx
  · exact wp_bind (wp_mono (visitNext_wp h hstarted now) fun _ _ _ hsound => hsound)

theorem step_wp {r : Rotation} (h : Sound r w) (cfg : ReleaseSweepConfig) (now : Instant) :
    wp machine discipline pid (step cfg now r) (fun x w' => Sound x.2 w') w := by
  unfold step
  split
  · have hmarked : Sound { r with lastWasRetry := true } w := h.of_progress rfl
    exact wp_bind (wp_mono (visitRetried_wp hmarked cfg now) fun _ _ _ hsound => hsound)
  · have hmarked : Sound { r with lastWasRetry := false } w := h.of_progress rfl
    dsimp only
    split
    · next hidle =>
      split
      · exact hmarked.of_progress rfl
      · exact walkStep_wp (hmarked.start (Option.isNone_iff_eq_none.mp hidle) now) nofun cfg now
    · next hwalking =>
      exact walkStep_wp hmarked (fun hnone => hwalking (Option.isNone_iff_eq_none.mpr hnone)) cfg
        now

theorem recordCompleted_wp {startedUnder : Nat} (hreq : startedUnder ≤ w.requested)
    (hcovered : ∀ a, Covered startedUnder w a) :
    wp machine discipline pid (recordCompleted startedUnder) (fun _ _ => True) w := by
  unfold recordCompleted
  split
  · trivial
  · intro w₁ hle _
    refine ⟨⟨Nat.le_trans hreq hle.requested, fun a => hle.covered hreq (hcovered a)⟩, ?_⟩
    exact fun _ _ _ _ _ _ => trivial

theorem learnSequence_wp {r : Rotation} (h : Sound r w) (cfg : ReleaseSweepConfig)
    (now : Instant) :
    wp machine discipline pid (learnSequence cfg now r) (fun r' w' => Sound r' w') w := by
  unfold learnSequence
  split
  · next hstarts =>
    have hidle : r.startedAt = none := by
      simp only [Rotation.startsAt, Bool.and_eq_true, Option.isNone_iff_eq_none] at hstarts
      exact hstarts.1.1.1
    refine wp_bind (wp_mono walkSequence_wp fun startedUnder w' hle hunder => ?_)
    have h' := h.climb hle
    exact ⟨h'.paged, hunder, h'.idle, fun hs => absurd hidle hs, h'.retry, h'.completed⟩
  · exact h

/-- What is recorded as completed covers every account. -/
theorem recordWalk_wp {r : Rotation} (h : Sound r w) (cfg : ReleaseSweepConfig) :
    wp machine discipline pid (recordWalk cfg r) (fun r' w' => Sound r' w') w := by
  unfold recordWalk
  split
  · exact h
  · next startedUnder hcompleted =>
    obtain ⟨hreq, hcovered⟩ := h.completed hcompleted
    split
    · refine wp_bind (wp_mono (recordCompleted_wp hreq hcovered) fun _ w' hle _ => ?_)
      exact (h.climb hle).forgetCompleted
    · exact h.forgetCompleted

theorem rotationTurn_wp {r : Rotation} (h : Sound r w) (cfg : ReleaseSweepConfig)
    (now : Instant) :
    wp machine discipline pid (rotationTurn cfg now r) (fun x w' => Sound x.2 w') w := by
  refine wp_bind (wp_mono (learnSequence_wp h cfg now) fun r₁ w₁ _ h₁ => ?_)
  refine wp_bind (wp_mono (step_wp h₁ cfg now) fun x w₂ _ h₂ => ?_)
  obtain ⟨outcome, r₂⟩ := x
  have hpaced : Sound (if outcome = .error then { r₂ with nextTurn := now + cfg.recheck } else r₂)
      w₂ := by
    split
    · exact h₂.of_progress rfl
    · exact h₂
  exact wp_bind (wp_mono (recordWalk_wp hpaced cfg) fun _ _ _ h₃ => h₃)

theorem settleObservation_calls (cfg : ReleaseSweepConfig) (observation : Observation)
    (outcome : VisitOutcome) : (settleObservation cfg observation outcome).Calls Quiet := by
  unfold settleObservation
  split
  · exact ⟨trivial, fun _ => ⟨trivial, fun _ => trivial⟩⟩
  · exact ⟨trivial, fun _ => trivial⟩

theorem visitNextObservation_calls (cfg : ReleaseSweepConfig) :
    (visitNextObservation cfg).Calls Quiet := by
  refine ⟨trivial, fun observation => ?_⟩
  cases observation with
  | none => trivial
  | some observation =>
    exact (visit_calls observation.accountId).bind' fun outcome =>
      settleObservation_calls cfg observation outcome

/-- A turn of the loop that does not concern the rotation leaves it alone. -/
theorem takeOverOwedWalk_wp {r : Rotation} (h : Sound r w) :
    wp machine discipline pid (takeOverOwedWalk r) (fun r' w' => Sound r' w') w := by
  refine wp_ask (o := .walkRequests) trivial fun answer w₁ hle₁ => ?_
  have h₁ := h.climb hle₁
  have hrequest : wp machine discipline pid (do return r.request (← call .now))
      (fun r' w' => Sound r' w') w₁ :=
    wp_ask (o := .now) trivial fun now w₂ hle₂ => (h₁.climb hle₂).request now
  match answer with
  | none => exact hrequest
  | some none => exact h₁
  | some (some walks) =>
    dsimp only
    split
    · exact hrequest
    · exact h₁

theorem takeRotationRequest_wp {r : Rotation} (h : Sound r w) (cfg : ReleaseSweepConfig) :
    wp machine discipline pid (takeRotationRequest cfg r) (fun r' w' => Sound r' w') w := by
  unfold takeRotationRequest
  split
  · refine wp_ask (o := .takeRotationRequest) trivial fun signalled w₁ hle₁ => ?_
    split
    · exact wp_ask (o := .now) trivial fun now w₂ hle₂ =>
        ((h.climb hle₁).climb hle₂).request now
    · exact h.climb hle₁
  · exact h

theorem observationDue_calls (cfg : ReleaseSweepConfig) : (observationDue cfg).Calls Quiet := by
  unfold observationDue
  split
  · exact Prog.Calls.op' trivial
  · trivial

theorem observationTurn_calls (cfg : ReleaseSweepConfig) : (observationTurn cfg).Calls Quiet := by
  unfold observationTurn
  split
  · exact visitNextObservation_calls cfg
  · trivial

theorem recheckTurn_calls (now : Instant) : (recheckTurn now).Calls Quiet := by
  refine ⟨trivial, fun accountId => ?_⟩
  cases accountId with
  | none => trivial
  | some accountId => exact (visit_calls accountId).bind' fun _ => trivial

/-- The loop keeps the rotation sound, for as long as it runs. -/
theorem holdLease_wp {r : Rotation} (h : Sound r w) (cfg : ReleaseSweepConfig) (fuel : Nat)
    (lastVisit : Option Instant) (lastTurn : Turn) :
    wp machine discipline pid (holdLease cfg fuel lastVisit lastTurn r)
      (fun r' w' => Sound r' w') w := by
  induction fuel generalizing w r lastVisit lastTurn with
  | zero => exact h
  | succ fuel ih =>
    refine wp_bind (wp_mono (takeRotationRequest_wp h cfg) fun r₁ w₁ _ h₁ => ?_)
    refine wp_quiet (observationDue_calls cfg) Prog.Results.trivial fun due w₂ _ hle₂ => ?_
    have h₂ := h₁.climb hle₂
    refine wp_ask (o := .nextRecheckDue) trivial fun recheckDue w₃ hle₃ => ?_
    refine wp_ask (o := .wait _) trivial fun wake w₄ hle₄ => ?_
    have h₄ := (h₂.climb hle₃).climb hle₄
    cases wake with
    | cancelled => exact h₄
    | woken => exact ih h₄ lastVisit lastTurn
    | slept =>
      refine wp_ask (o := .now) trivial fun now w₅ hle₅ => ?_
      refine wp_ask (o := .nextRecheckDue) trivial fun recheckDue' w₆ hle₆ => ?_
      have h₆ := (h₄.climb hle₅).climb hle₆
      split
      · exact ih h₆ lastVisit lastTurn
      · exact wp_quiet (recheckTurn_calls now) Prog.Results.trivial fun visited w₇ _ hle₇ =>
          ih (h₆.climb hle₇) _ _
      · exact wp_quiet (observationTurn_calls cfg) Prog.Results.trivial fun _ w₇ _ hle₇ =>
          ih (h₆.climb hle₇) _ _
      · refine wp_bind (wp_mono (rotationTurn_wp h₆ cfg now) fun x w₇ _ h₇ => ?_)
        exact ih h₇ _ _

theorem runWorker_wp {r : Rotation} (h : Sound r w) (cfg : ReleaseSweepConfig)
    (holds : List Nat) :
    wp machine discipline pid (runWorker cfg holds r) (fun _ _ => True) w := by
  induction holds generalizing w r with
  | nil => trivial
  | cons fuel holds ih =>
    refine wp_ask (o := .tryAcquire) trivial fun acquired w₁ hle₁ => ?_
    have h₁ := h.climb hle₁
    split
    · have htake : wp machine discipline pid (takeOver cfg r) (fun r' w' => Sound r' w') w₁ := by
        unfold takeOver
        split
        · exact takeOverOwedWalk_wp h₁
        · exact h₁
      refine wp_bind (wp_mono htake fun r₂ w₂ _ h₂ => ?_)
      refine wp_bind (wp_mono (holdLease_wp h₂ cfg fuel none .rotation) fun r₃ w₃ _ h₃ => ?_)
      exact wp_ask (o := .release) trivial fun _ w₄ hle₄ => ih (h₃.climb hle₄)
    · exact ih h₁

theorem startReleaseSweepWorker_wp (worker : Worker) :
    wp machine discipline pid (startReleaseSweepWorker worker) (fun _ _ => True) w :=
  wp_ask (o := .now) trivial fun now w₁ _ =>
    runWorker_wp (Sound.new worker.config now w₁) worker.config worker.holds

end Programs

/-! ## Completions -/

/-- A recorded completion of sequence `seq`: which accounts were listed then and
since when, and under which sequence each was last checked. -/
structure Completion where
  seq : Nat
  listedUnder : String → Option Nat
  checkedUnder : String → Nat

/-- A completion is recorded also when the answer to it is lost. -/
def noteCompletion : Note Op World Choice (List Completion) := fun _ op ch w h =>
  match op, ch with
  | .completeWalk seq, .done | .completeWalk seq, .lost =>
    ⟨seq, w.listedUnder, w.checkedUnder⟩ :: h
  | _, _ => h

/-- Every account that was listed since a request up to `completion.seq` was
checked since. -/
def Completion.Covers (completion : Completion) : Prop :=
  ∀ s, s ≤ completion.seq → ∀ accountId v, completion.listedUnder accountId = some v → v < s →
    s ≤ completion.checkedUnder accountId

/-- Completed sequences were completed at some point, and completions cover. -/
structure Accounted (w : World) (completions : List Completion) : Prop where
  fits : w.requested ≤ i64Max
  recorded : ∀ s, 0 < s → s ≤ completedSeq w.walks → ∃ completion ∈ completions, s ≤ completion.seq
  covers : ∀ completion ∈ completions, completion.Covers

section Accounts
variable {w w' : World} {completions : List Completion}

/-- Steps that complete nothing. -/
theorem Accounted.of_same (h : Accounted w completions) (hfits : w'.requested ≤ i64Max)
    (hcompleted : completedSeq w'.walks = completedSeq w.walks) : Accounted w' completions where
  fits := hfits
  recorded := fun s hs hle => h.recorded s hs (hcompleted ▸ hle)
  covers := h.covers

theorem Accounted.request {walks : WalkRequests} (h : Accounted w completions)
    (hwalks : BlockWatch.requestWalk w.backend w.walks = some walks) :
    Accounted { w with walks := some walks } completions := by
  obtain ⟨-, hmax, hcompleted⟩ := requestWalk_spec hwalks h.fits
  exact h.of_same hmax hcompleted

theorem Accounted.complete {seq : Nat} (h : Accounted w completions)
    (hcovered : ∀ accountId, Covered seq w accountId) :
    Accounted { w with walks := BlockWatch.completeWalk seq w.walks }
      (⟨seq, w.listedUnder, w.checkedUnder⟩ :: completions) where
  fits := by
    show requestedSeq (BlockWatch.completeWalk seq w.walks) ≤ i64Max
    rw [requestedSeq_completeWalk]
    exact h.fits
  recorded := by
    intro s hs hle
    have hmax := Nat.le_trans hle (completedSeq_completeWalk seq w.walks)
    rcases le_max_iff.mp hmax with hold | hnew
    · obtain ⟨completion, hmem, hseq⟩ := h.recorded s hs hold
      exact ⟨completion, List.mem_cons_of_mem _ hmem, hseq⟩
    · exact ⟨_, List.mem_cons_self, hnew⟩
  covers := by
    intro completion hmem
    rcases List.mem_cons.mp hmem with rfl | hmem
    · exact fun s hs accountId => (hcovered accountId).of_le hs
    · exact h.covers completion hmem

theorem accounted_call {pid : Nat} {op : Op} {ch : Choice} {r : Res op}
    (hok : discipline.ok pid op w) (hx : exec op ch w = some (r, w'))
    (h : Accounted w completions) : Accounted w' (noteCompletion pid op ch w completions) := by
  cases op with
  | requestWalk =>
    cases ch with
    | done | lost =>
      obtain ⟨walks, hwalks, heq⟩ := Option.map_eq_some_iff.mp hx
      cases heq
      exact h.request hwalks
    | stale =>
      simp only [exec] at hx
      split at hx
      · cases hx; exact h
      · cases hx
    | failed => cases hx; exact h
    | _ => cases hx
  | completeWalk seq =>
    cases ch with
    | done | lost => cases hx; exact h.complete hok.2
    | stale =>
      simp only [exec] at hx
      split at hx
      · cases hx; exact h
      · cases hx
    | failed => cases hx; exact h
    | _ => cases hx
  | endVisit accountId begunUnder =>
    cases ch with
    | outcome outcome =>
      cases hx
      split
      · exact h.of_same h.fits rfl
      · exact h
    | _ => cases hx
  | _ => cases ch <;> cases hx <;> exact h

theorem accounted_act {a : Act} (hx : act a w = some w') (h : Accounted w completions) :
    Accounted w' completions := by
  cases a with
  | request =>
    obtain ⟨walks, hwalks, rfl⟩ := Option.map_eq_some_iff.mp hx
    exact h.request hwalks
  | list accountId =>
    simp only [act] at hx
    split at hx
    · cases hx
    · cases hx; exact h.of_same h.fits rfl
  | unlist accountId => cases hx; exact h.of_same h.fits rfl

end Accounts

/-- In every run of workers from an empty store, when the recorded completed
sequence has reached `s`: a completion of `s` or later was recorded, and at each
such completion every account listed since request `s` had been checked by a
visit that began after the request. -/
theorem completed_walk_covers (backend : Backend) {c : Conf Op Res World Worker}
    {completions : List Completion}
    (hr : Recorded machine startReleaseSweepWorker .any noteCompletion (World.start backend) []
      c completions) {s : Nat} (hs : 0 < s) (hcompleted : s ≤ completedSeq c.world.walks) :
    (∃ completion ∈ completions, s ≤ completion.seq) ∧
    ∀ completion ∈ completions, s ≤ completion.seq →
      ∀ accountId v, completion.listedUnder accountId = some v → v < s →
        s ≤ completion.checkedUnder accountId := by
  have hstart : Listed (World.start backend) := ⟨fun _ => rfl, Nat.zero_le _⟩
  have haccounted : Accounted c.world completions := by
    refine Recorded.induct (I := Accounted) (K := fun pid op w => discipline.ok pid op w)
      (fun hr hp => ?_) ?_ ?_ ?_ hr
    · exact (hr.ok discipline_kept (fun _ _ _ => Prog.Calls.any _) hstart
        (fun pid req w _ _ => startReleaseSweepWorker_wp req) hp).2.2
    · exact ⟨Nat.zero_le _, fun s hs hle => absurd hle (Nat.not_le_of_gt hs), fun _ hmem => by cases hmem⟩
    · intro pid op ch w r w' h hok _ hx hi
      exact accounted_call hok hx hi
    · intro a w w' h _ hx hi
      exact accounted_act hx hi
  refine ⟨haccounted.recorded s hs hcompleted, fun completion hmem hle => ?_⟩
  exact haccounted.covers completion hmem s hle

namespace Demo

def config : ReleaseSweepConfig where
  enabled := true
  rotation := 1000
  minSpacing := 1
  recheck := 10
  pageSize := 1
  spacingFor := fun _ => 1
  blockWatch := true
  maxAttempts := 3

/-- A turn of the loop that starts at `now` and finds only the rotation due. -/
def turn (now : Instant) : List (Event Worker Choice Act) :=
  [.run 1 (.flag false), .run 1 (.due none), .run 1 (.due none), .run 1 (.wake .slept),
   .run 1 (.instant now), .run 1 (.due none)]

/-- One account is listed and a walk requested; the worker cannot check the
account in its walk, and checks it in the walk's retry round. -/
def walked : List (Event Worker Choice Act) :=
  [.env (.list "0x01"), .env .request, .spawn 1 ⟨config, [3]⟩, .run 1 (.instant 0),
   .run 1 (.flag true), .run 1 .done, .run 1 (.instant 0)] ++
  turn 0 ++ [.run 1 .done, .run 1 .done, .run 1 .done, .run 1 .done, .run 1 (.outcome .failed)] ++
  turn 1 ++ [.run 1 .done, .run 1 .done, .run 1 (.instant 1)] ++
  turn 11 ++ [.run 1 .done, .run 1 (.outcome .checked), .run 1 .done]

def runWalked : Option (Conf Op Res World Worker × List Completion) :=
  runRecorded machine startReleaseSweepWorker .any noteCompletion
    (Conf.start (World.start .postgres)) [] walked

end Demo

/-- The walk of the run is recorded, and its account was checked. -/
theorem completed_walk_covers_retried :
    ∃ c completions, Recorded machine startReleaseSweepWorker .any noteCompletion
      (World.start .postgres) [] c completions ∧ completedSeq c.world.walks = 1 ∧
      ∃ completion ∈ completions, completion.listedUnder "0x01" = some 0 ∧
        1 ≤ completion.checkedUnder "0x01" := by
  have hrun : Demo.runWalked.map (fun x => (completedSeq x.1.world.walks,
      x.2.map (fun completion => (completion.seq, completion.listedUnder "0x01")))) =
      some (1, [(1, some 0)]) := by decide +kernel
  obtain ⟨⟨c, completions⟩, hc, heq⟩ := Option.map_eq_some_iff.mp hrun
  obtain ⟨hcompleted, hlisted⟩ := Prod.mk.inj heq
  have hr := Recorded.init.runRecorded hc
  obtain ⟨⟨completion, hmem, hseq⟩, hcovers⟩ :=
    completed_walk_covers .postgres hr (by decide : 0 < 1) hcompleted.ge
  have hmem' := List.mem_map_of_mem (f := fun x : Completion => (x.seq, x.listedUnder "0x01")) hmem
  rw [hlisted, List.mem_singleton] at hmem'
  have hzero := (Prod.mk.inj hmem').2
  exact ⟨c, completions, hr, hcompleted, completion, hmem, hzero,
    hcovers completion hmem hseq "0x01" 0 hzero (by decide)⟩

end Guardian.ReleaseSweep
