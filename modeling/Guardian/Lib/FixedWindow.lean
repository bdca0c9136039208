import Mathlib.Data.List.Basic

/- A counter over fixed windows of time. A window opens at the first request
   after the one before it expired and lets `limit` requests through. `Tracks`
   relates a counter to the times of the requests it let through: those of its
   window, those of the window before, and older ones, which are more than a
   window's length away from any request to come. Whatever interval of a
   window's length is looked at, it meets two windows at most
   (`Tracks.bounded`).

   A counter may be dropped and opened again; that is harmless exactly when its
   window has expired (`Tracks.dropped`). -/

/-- When the window opened, and what it has let through. -/
structure FixedWindow where
  start : Nat
  count : Nat
  deriving DecidableEq, Repr

namespace FixedWindow

/-- Time went on by a window's length. Clocks subtract to zero. -/
def expired (length now : Nat) (w : FixedWindow) : Bool := decide (length ≤ now - w.start)

/-- Let a request through, in a new window where the old one has expired. -/
def allows (length limit now : Nat) (w : FixedWindow) : Bool × FixedWindow :=
  let w := if w.expired length now then ⟨now, 0⟩ else w
  if limit ≤ w.count then (false, w) else (true, { w with count := w.count + 1 })

/-- The times at which requests were let through, newest first, within an
interval of length `length`. -/
def within (length since : Nat) (times : List Nat) : List Nat :=
  times.filter (fun t => decide (since ≤ t) && decide (t ≤ since + length))

/-- The times split by window: `recent` in the window before, `old` in earlier
ones. -/
structure Settled (length limit : Nat) (last : Nat) (recent old : List Nat) : Prop where
  recent_le : recent.length ≤ limit
  old_far : ∀ t ∈ old, t + length < last

/-- The counter, if there is one, has let requests through at `times`, the last
clock reading being `last`. -/
inductive Tracks (length limit : Nat) : Option FixedWindow → List Nat → Nat → Prop
  | closed (recent old : List Nat) {last : Nat} (settled : Settled length limit last recent old)
      (past : ∀ t ∈ recent ++ old, t < last) : Tracks length limit none (recent ++ old) last
  | opened {w : FixedWindow} (current recent old : List Nat) {last : Nat}
      (settled : Settled length limit last recent old) (count : current.length = w.count)
      (count_le : w.count ≤ limit) (inside : ∀ t ∈ current, t < w.start + length)
      (past : ∀ t ∈ recent ++ old, t < w.start) :
      Tracks length limit (some w) (current ++ (recent ++ old)) last

variable {length limit last now : Nat} {times recent old : List Nat} {w : FixedWindow}

theorem Settled.later (h : Settled length limit last recent old) {last' : Nat}
    (hle : last ≤ last') : Settled length limit last' recent old :=
  ⟨h.recent_le, fun t ht => Nat.lt_of_lt_of_le (h.old_far t ht) hle⟩

namespace Tracks

theorem never (length limit last : Nat) : Tracks length limit none [] last :=
  .closed [] [] ⟨Nat.zero_le _, nofun⟩ nofun

theorem later {o : Option FixedWindow} (h : Tracks length limit o times last) {last' : Nat}
    (hle : last ≤ last') : Tracks length limit o times last' := by
  cases h with
  | closed recent old settled past =>
    exact .closed recent old (settled.later hle) fun t ht => Nat.lt_of_lt_of_le (past t ht) hle
  | opened current recent old settled count count_le inside past =>
    exact .opened current recent old (settled.later hle) count count_le inside past

/-- A counter is opened for the request that finds none. -/
theorem created (h : Tracks length limit none times last) {start : Nat} (hle : last ≤ start) :
    Tracks length limit (some ⟨start, 0⟩) times last := by
  cases h with
  | closed recent old settled past =>
    exact .opened [] recent old settled rfl (Nat.zero_le _) nofun fun t ht =>
      Nat.lt_of_lt_of_le (past t ht) hle

/-- A new window makes the current times recent and the recent ones old. -/
theorem turned (hlength : 0 < length) (h : Tracks length limit (some w) times last)
    (hexpired : w.expired length now = true) : ∃ recent old, times = recent ++ old ∧
      Settled length limit now recent old ∧ ∀ t ∈ recent ++ old, t < now := by
  have hnow : w.start + length ≤ now := by
    have hle := of_decide_eq_true hexpired
    omega
  cases h with
  | opened current recent old settled count count_le inside past =>
    refine ⟨current, recent ++ old, rfl, ⟨count ▸ count_le, fun t ht => ?_⟩, fun t ht => ?_⟩
    · have hpast := past t ht
      omega
    · rcases List.mem_append.mp ht with hcur | hpast
      · have hinside := inside t hcur
        omega
      · have hlt := past t hpast
        omega

/-- A counter whose window has expired may be dropped. -/
theorem dropped (hlength : 0 < length) (h : Tracks length limit (some w) times last)
    (hexpired : w.expired length now = true) : Tracks length limit none times now := by
  obtain ⟨recent, old, rfl, settled, past⟩ := h.turned hlength hexpired
  exact .closed recent old settled past

/-- One more request in the current window. -/
theorem counted (h : Tracks length limit (some w) times last) (hlt : w.count < limit)
    (hnow : now < w.start + length) :
    Tracks length limit (some { w with count := w.count + 1 }) (now :: times) last := by
  cases h with
  | opened current recent old settled count count_le inside past =>
    refine .opened (now :: current) recent old settled (congrArg (· + 1) count) hlt ?_ past
    intro t ht
    rcases List.mem_cons.mp ht with rfl | ht
    · exact hnow
    · exact inside t ht

/-- What `allows` does to the counter. -/
theorem allowed (hlength : 0 < length) (h : Tracks length limit (some w) times last)
    (hlast : last ≤ now) :
    Tracks length limit (some (allows length limit now w).2)
      (if (allows length limit now w).1 then now :: times else times) now := by
  -- the window the request is counted in
  have hwindow : ∃ v : FixedWindow, v = (if w.expired length now then ⟨now, 0⟩ else w) ∧
      Tracks length limit (some v) times now ∧ now < v.start + length := by
    refine ⟨_, rfl, ?_⟩
    by_cases hexpired : w.expired length now = true
    · obtain ⟨recent, old, rfl, settled, past⟩ := h.turned hlength hexpired
      rw [if_pos hexpired]
      exact ⟨.opened [] recent old settled rfl (Nat.zero_le _) nofun past,
        show now < now + length by omega⟩
    · rw [if_neg hexpired]
      have hopen : ¬length ≤ now - w.start := fun hle => hexpired (decide_eq_true hle)
      exact ⟨h.later hlast, by omega⟩
  obtain ⟨v, hv, htracks, hnow⟩ := hwindow
  unfold allows
  rw [← hv]
  by_cases hfull : limit ≤ v.count
  · simpa [hfull] using htracks
  · simpa [hfull] using htracks.counted (Nat.lt_of_not_le hfull) hnow

theorem within_append (since : Nat) (xs ys : List Nat) :
    within length since (xs ++ ys) = within length since xs ++ within length since ys :=
  List.filter_append ..

/-- An interval that ends at the last reading or later meets the current and the
recent times only. -/
theorem ending (h : Tracks length limit (some w) times last) {since : Nat}
    (hend : last ≤ since + length) : (within length since times).length ≤ 2 * limit := by
  cases h with
  | opened current recent old settled count count_le inside past =>
    have hold : within length since old = [] := by
      refine List.filter_eq_nil_iff.mpr fun t ht => ?_
      have hfar := settled.old_far t ht
      simp only [Bool.and_eq_true, decide_eq_true_eq, not_and]
      omega
    have hcurrent : (within length since current).length ≤ current.length :=
      List.length_filter_le _ _
    have hrecent : (within length since recent).length ≤ recent.length :=
      List.length_filter_le _ _
    have hlimit := settled.recent_le
    rw [within_append, within_append, hold, List.append_nil, List.length_append]
    omega

end Tracks

/-- A tracked counter, every interval of whose past is within the bound. -/
structure Bounded (length limit : Nat) (o : Option FixedWindow) (times : List Nat) (last : Nat) :
    Prop where
  tracks : Tracks length limit o times last
  bound : ∀ since, (within length since times).length ≤ 2 * limit

namespace Bounded

theorem never (length limit last : Nat) : Bounded length limit none [] last :=
  ⟨.never length limit last, fun _ => Nat.zero_le _⟩

theorem later {o : Option FixedWindow} (h : Bounded length limit o times last) {last' : Nat}
    (hle : last ≤ last') : Bounded length limit o times last' := ⟨h.tracks.later hle, h.bound⟩

theorem dropped (hlength : 0 < length) (h : Bounded length limit (some w) times last)
    (hexpired : w.expired length now = true) : Bounded length limit none times now :=
  ⟨h.tracks.dropped hlength hexpired, h.bound⟩

theorem created (h : Bounded length limit none times last) {start : Nat} (hle : last ≤ start) :
    Bounded length limit (some ⟨start, 0⟩) times last := ⟨h.tracks.created hle, h.bound⟩

theorem allowed (hlength : 0 < length) (h : Bounded length limit (some w) times last)
    (hlast : last ≤ now) :
    Bounded length limit (some (allows length limit now w).2)
      (if (allows length limit now w).1 then now :: times else times) now := by
  have htracks := h.tracks.allowed hlength hlast
  refine ⟨htracks, fun since => ?_⟩
  by_cases hend : now ≤ since + length
  · exact htracks.ending hend
  · -- the new time lies past the interval
    have hsame : within length since (now :: times) = within length since times :=
      List.filter_cons_of_neg (by simp only [Bool.and_eq_true, decide_eq_true_eq]; omega)
    split
    · rw [hsame]
      exact h.bound since
    · exact h.bound since

end Bounded
end FixedWindow
