import Mathlib.Data.Int.Order.Lemmas

/- The clock skew of a request (`validate_timestamp_skew`, `validate_request_timestamp` in
   `server/src/services/mod.rs`, `lookup_account` in `services/lookup_account.rs`).

   The session path takes the distance with `abs_diff`, which cannot overflow. The
   wallet path and the lookup subtract and take the absolute value in `i64`. Where the
   difference does not fit, the subtraction wraps or panics, as the build has it; where
   it is `i64::MIN`, the absolute value does. So they are exact for a timestamp less
   than `2^63` from the clock, and for no other: a timestamp of `2^63` before the clock
   wraps to `i64::MIN`, whose wrapped absolute value is negative, and is accepted. -/
namespace Guardian.TimestampSkew

/-- What integer overflow does in a build. -/
inductive Overflow where
  | wraps
  | checked
  deriving DecidableEq, Repr

/-- `MAX_TIMESTAMP_SKEW_MS`. -/
def maxTimestampSkewMs : Int64 := 300000

/-- An `i64` result; `none` is a panic. -/
def arithmetic (mode : Overflow) (exact : Int) (wrapped : Int64) : Option Int64 :=
  match mode with
  | .wraps => some wrapped
  | .checked => if -2 ^ 63 ≤ exact ∧ exact < 2 ^ 63 then some wrapped else none

/-- `i64` subtraction. -/
def sub (mode : Overflow) (a b : Int64) : Option Int64 := arithmetic mode (a.toInt - b.toInt) (a - b)

/-- `i64::abs`. -/
def abs (mode : Overflow) (a : Int64) : Option Int64 :=
  if a < 0 then arithmetic mode (-a.toInt) (-a) else some a

/-- `i64::abs_diff`. -/
def absDiff (a b : Int64) : Nat := (a.toInt - b.toInt).natAbs

def outsideWindow (timeDiffMs : String) : String :=
  "Request timestamp outside allowed window: " ++ timeDiffMs ++ "ms drift (max 300000ms)"

/-- `validate_timestamp_skew`. -/
def validateTimestampSkew (_mode : Overflow) (serverNowMs timestampMs : Int64) :
    Option (Except String Unit) :=
  let timeDiffMs := absDiff serverNowMs timestampMs
  some (if maxTimestampSkewMs.toInt < timeDiffMs then .error (outsideWindow (toString timeDiffMs))
    else .ok ())

/-- The check of the wallet path and of the lookup. -/
def subtractedSkew (mode : Overflow) (serverNowMs requestTimestamp : Int64) :
    Option (Except String Unit) := do
  let difference ← sub mode serverNowMs requestTimestamp
  let timeDiffMs ← abs mode difference
  return if maxTimestampSkewMs < timeDiffMs then
    .error (outsideWindow (toString timeDiffMs.toInt)) else .ok ()

/-- `validate_request_timestamp`. -/
def validateRequestTimestamp (mode : Overflow) (serverNowMs requestTimestamp : Int64) :
    Option (Except String Int64) :=
  (subtractedSkew mode serverNowMs requestTimestamp).map (·.map fun _ => requestTimestamp)

/-- The timestamp check of `lookup_account`. -/
def lookupTimestamp (mode : Overflow) (serverNowMs requestTimestamp : Int64) :
    Option (Except String Unit) :=
  subtractedSkew mode serverNowMs requestTimestamp

/-! ## Exactness -/

/-- In every build the check answers, and accepts exactly within the skew. -/
def Exact {α : Type} (check : Overflow → Int64 → Int64 → Option (Except String α))
    (now timestamp : Int64) : Prop :=
  ∀ mode, ∃ answer, check mode now timestamp = some answer ∧
    (answer.isOk = true ↔ |now.toInt - timestamp.toInt| ≤ 300000)

theorem toInt_maxTimestampSkewMs : maxTimestampSkewMs.toInt = 300000 := by decide

theorem isOk_ite {p : Prop} [Decidable p] (e : String) :
    (if p then Except.error e else Except.ok () : Except String Unit).isOk = true ↔ ¬ p := by
  split
  · rename_i hp
    simp [Except.isOk, Except.toBool, hp]
  · rename_i hp
    simp [Except.isOk, Except.toBool, hp]

theorem validateTimestampSkew_exact (now timestamp : Int64) :
    Exact validateTimestampSkew now timestamp := by
  intro mode
  refine ⟨_, rfl, ?_⟩
  rw [isOk_ite, toInt_maxTimestampSkewMs, absDiff, Int.natCast_natAbs, not_lt]

theorem sub_toInt {a b : Int64} (h : |a.toInt - b.toInt| < 2 ^ 63) :
    (a - b).toInt = a.toInt - b.toInt := by
  rw [Int64.toInt_sub]
  obtain ⟨hlow, hhigh⟩ := abs_lt.mp h
  exact Int.bmod_eq_of_le (by omega) (by omega)

theorem sub_eq {a b : Int64} (h : |a.toInt - b.toInt| < 2 ^ 63) (mode : Overflow) :
    sub mode a b = some (a - b) := by
  obtain ⟨hlow, hhigh⟩ := abs_lt.mp h
  cases mode with
  | wraps => rfl
  | checked =>
    rw [sub, arithmetic, if_pos]
    omega

theorem neg_toInt {a : Int64} (h : |a.toInt| < 2 ^ 63) : (-a).toInt = -a.toInt := by
  rw [Int64.toInt_neg]
  obtain ⟨hlow, hhigh⟩ := abs_lt.mp h
  exact Int.bmod_eq_of_le (by omega) (by omega)

theorem abs_eq {a : Int64} (h : |a.toInt| < 2 ^ 63) (mode : Overflow) :
    ∃ r, abs mode a = some r ∧ r.toInt = |a.toInt| := by
  obtain ⟨hlow, hhigh⟩ := abs_lt.mp h
  have hzero : (0 : Int64).toInt = 0 := by decide
  rw [abs]
  split
  · rename_i hneg
    rw [Int64.lt_iff_toInt_lt, hzero] at hneg
    refine ⟨-a, ?_, ?_⟩
    · cases mode with
      | wraps => rfl
      | checked =>
        rw [arithmetic, if_pos]
        omega
    · rw [neg_toInt h, abs_of_neg hneg]
  · rename_i hneg
    rw [Int64.lt_iff_toInt_lt, hzero, not_lt] at hneg
    exact ⟨a, rfl, (abs_of_nonneg hneg).symm⟩

theorem subtractedSkew_exact {now timestamp : Int64}
    (h : |now.toInt - timestamp.toInt| < 2 ^ 63) : Exact subtractedSkew now timestamp := by
  intro mode
  have hdifference := sub_toInt h
  obtain ⟨r, hr, hvalue⟩ := abs_eq (a := now - timestamp) (hdifference ▸ h) mode
  refine ⟨if maxTimestampSkewMs < r then .error (outsideWindow (toString r.toInt)) else .ok (), ?_, ?_⟩
  · rw [subtractedSkew, sub_eq h mode]
    show (abs mode (now - timestamp)).bind _ = _
    rw [hr]
    rfl
  · rw [isOk_ite, Int64.lt_iff_toInt_lt, toInt_maxTimestampSkewMs, hvalue, hdifference, not_lt]

/-- A checked build panics on every other timestamp. -/
theorem subtractedSkew_checked {now timestamp : Int64}
    (h : ¬ |now.toInt - timestamp.toInt| < 2 ^ 63) : subtractedSkew .checked now timestamp = none := by
  rw [subtractedSkew, sub, arithmetic]
  split
  · rename_i hfits
    -- the difference is `i64::MIN`, and its absolute value does not fit
    have hmin : now.toInt - timestamp.toInt = -2 ^ 63 := by
      rw [abs_lt] at h
      omega
    have hvalue : (now - timestamp).toInt = -2 ^ 63 := by
      rw [Int64.toInt_sub, hmin]
      decide
    have hneg : now - timestamp < 0 := by
      rw [Int64.lt_iff_toInt_lt, hvalue]
      decide
    show (abs .checked (now - timestamp)).bind _ = none
    rw [abs, if_pos hneg, arithmetic, hvalue, if_neg (by decide)]
    rfl
  · rfl

theorem exact_subtractedSkew_iff (now timestamp : Int64) :
    Exact subtractedSkew now timestamp ↔ |now.toInt - timestamp.toInt| < 2 ^ 63 := by
  refine ⟨fun hexact => ?_, subtractedSkew_exact⟩
  by_contra h
  obtain ⟨answer, hanswer, -⟩ := hexact .checked
  rw [subtractedSkew_checked h] at hanswer
  cases hanswer

theorem isOk_map {α β : Type} (f : α → β) (r : Except String α) : (r.map f).isOk = r.isOk := by
  cases r <;> rfl

theorem exact_validateRequestTimestamp_iff (now timestamp : Int64) :
    Exact validateRequestTimestamp now timestamp ↔ Exact subtractedSkew now timestamp := by
  refine forall_congr' fun mode => ?_
  cases hcheck : subtractedSkew mode now timestamp with
  | none => simp [validateRequestTimestamp, hcheck]
  | some answer => simp [validateRequestTimestamp, hcheck, isOk_map]

/-- The session path is exact for every clock and timestamp; the wallet path and the
lookup exactly for those less than `2^63` apart. -/
theorem skew_exact_iff (now timestamp : Int64) :
    Exact validateTimestampSkew now timestamp ∧
      (Exact validateRequestTimestamp now timestamp ↔ |now.toInt - timestamp.toInt| < 2 ^ 63) ∧
      (Exact lookupTimestamp now timestamp ↔ |now.toInt - timestamp.toInt| < 2 ^ 63) :=
  ⟨validateTimestampSkew_exact now timestamp,
    (exact_validateRequestTimestamp_iff now timestamp).trans (exact_subtractedSkew_iff now timestamp),
    exact_subtractedSkew_iff now timestamp⟩

/-- In November 2023, a timestamp of `2^63` ms before the clock passes where overflow
wraps, and panics where it is checked. -/
theorem distant_timestamp_accepted :
    validateRequestTimestamp .wraps 1700000000000 (-9223370336854775808) =
        some (.ok (-9223370336854775808)) ∧
      lookupTimestamp .wraps 1700000000000 (-9223370336854775808) = some (.ok ()) ∧
      validateRequestTimestamp .checked 1700000000000 (-9223370336854775808) = none ∧
      lookupTimestamp .checked 1700000000000 (-9223370336854775808) = none ∧
      ¬ |(1700000000000 : Int64).toInt - (-9223370336854775808 : Int64).toInt| ≤ 300000 := by
  decide +kernel

end Guardian.TimestampSkew
