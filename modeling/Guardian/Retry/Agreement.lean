import Guardian.Retry.StatusNumbers

/- The two classifiers agree on texts of plain characters (`classifiers_agree`).

   Both sides note evidence in their own order and stop in their own places, and the
   verdict of either is that of the evidence as a set (`summary`). The status numbers
   are the same (`mem_scan`, `mem_matchAll`), and the gRPC names are looked for in the
   same letters and digits once the text has no capital. -/
namespace Guardian.Retry

open Regex

/-! ## The verdicts -/

/-- Permanent evidence vetoes transient evidence. -/
def summary (evidence : List (Option StructuredEvidence)) : Option StructuredEvidence :=
  if some .permanent ∈ evidence then some .permanent
  else if some .transient ∈ evidence then some .transient
  else none

theorem summary_congr {evidence evidence' : List (Option StructuredEvidence)}
    (h : ∀ e, e ≠ .indeterminate → (some e ∈ evidence ↔ some e ∈ evidence')) :
    summary evidence = summary evidence' := by
  have hperm := h .permanent (by decide)
  have htrans := h .transient (by decide)
  simp only [summary, hperm, htrans]

theorem summary_eq_permanent {evidence : List (Option StructuredEvidence)} :
    summary evidence = some .permanent ↔ some .permanent ∈ evidence := by
  unfold summary
  split
  next h => simp [h]
  next h => split <;> simp [h]

theorem summary_eq_transient {evidence : List (Option StructuredEvidence)} :
    summary evidence = some .transient ↔
      some .permanent ∉ evidence ∧ some .transient ∈ evidence := by
  unfold summary
  split
  next h => simp [h]
  next h => split <;> simp_all

theorem summary_ne_indeterminate (evidence : List (Option StructuredEvidence)) :
    summary evidence ≠ some .indeterminate := by
  unfold summary
  split
  next => decide
  next => split <;> decide

theorem foldl_noteSome (ledger : Rust.EvidenceLedger) (evidence : List (Option StructuredEvidence)) :
    ((evidence.foldl Rust.noteSome ledger).permanent = true ↔
        ledger.permanent = true ∨ some .permanent ∈ evidence) ∧
      ((evidence.foldl Rust.noteSome ledger).transient = true ↔
        ledger.transient = true ∨ some .transient ∈ evidence) := by
  induction evidence generalizing ledger with
  | nil => simp
  | cons e evidence ih =>
    obtain ⟨hperm, htrans⟩ := ih (Rust.noteSome ledger e)
    rw [List.foldl_cons, hperm, htrans]
    cases e with
    | none => simp [Rust.noteSome]
    | some e => cases e <;> simp [Rust.noteSome, Rust.EvidenceLedger.note]

/-- The verdict of the Rust ledger. -/
theorem verdict_foldl (evidence : List (Option StructuredEvidence)) :
    (evidence.foldl Rust.noteSome {}).verdict = summary evidence := by
  obtain ⟨hperm, htrans⟩ := foldl_noteSome {} evidence
  rw [Rust.EvidenceLedger.verdict, summary]
  simp only [hperm, htrans, Bool.false_eq_true, false_or]

/-- The verdict of the TypeScript loop. -/
theorem firstPermanent_eq (hasTransient : Bool) (evidence : List (Option StructuredEvidence)) :
    TypeScript.firstPermanent hasTransient evidence =
      summary (if hasTransient then some .transient :: evidence else evidence) := by
  induction evidence generalizing hasTransient with
  | nil => cases hasTransient <;> rfl
  | cons e evidence ih =>
    rw [TypeScript.firstPermanent]
    split
    next heq =>
      rw [heq]
      cases hasTransient <;> simp [summary]
    next hne =>
      rw [ih]
      apply summary_congr
      intro e' he'
      rcases e with _ | _ | _ | _
      · cases hasTransient <;> simp
      · cases hasTransient <;> simp
      · exact absurd rfl hne
      · cases hasTransient <;> simp [he']

/-- One match of the scan, as the note of its number. -/
theorem noteStatus_eq (ledger : Rust.EvidenceLedger) (found : Text × Text) :
    Rust.noteStatus ledger found =
      Rust.noteSome ledger ((scanned found).bind fun n => TypeScript.httpEvidence n) := by
  rw [Rust.noteStatus, scanned]
  have hword : found.1.head?.any (fun c => c.isAlphanum || c == '_') =
      found.1.head?.any TypeScript.isWord := rfl
  rw [hword]
  split
  next => rfl
  next =>
    cases Rust.leadingStatus found.2 with
    | none => rfl
    | some n =>
      rw [Option.bind_some, TypeScript.httpEvidence]
      by_cases hrange : 400 ≤ n ∧ n ≤ 599
      · have hnot : ¬ ((n : Int) < 400 ∨ 599 < (n : Int)) := by omega
        have hlisted : n ∈ [408, 429, 502, 503, 504] ↔ (n : Int) ∈ [408, 429, 502, 503, 504] := by
          simp only [List.mem_cons, List.not_mem_nil, or_false]
          omega
        dsimp only
        rw [if_pos hrange, if_neg hnot]
        by_cases hmem : n ∈ [408, 429, 502, 503, 504]
        · rw [if_pos hmem, if_pos (hlisted.mp hmem)]
          rfl
        · rw [if_neg hmem, if_neg (fun h => hmem (hlisted.mpr h))]
          rfl
      · have hout : (n : Int) < 400 ∨ 599 < (n : Int) := by omega
        dsimp only
        rw [if_neg hrange, if_pos hout]
        rfl

theorem httpEvidence_eq {message : Text} (hsame : SameSpace message) :
    Rust.httpEvidence message = TypeScript.httpMessageEvidence message := by
  rw [Rust.httpEvidence, TypeScript.httpMessageEvidence, firstPermanent_eq]
  have hfold : ∀ (founds : List (Text × Text)) ledger, founds.foldl Rust.noteStatus ledger =
      (founds.map fun found => (scanned found).bind fun n => TypeScript.httpEvidence n).foldl
        Rust.noteSome ledger := by
    intro founds ledger
    rw [List.foldl_map]
    congr 1
    funext ledger found
    exact noteStatus_eq ledger found
  rw [hfold, verdict_foldl]
  apply summary_congr
  intro e _
  rw [if_neg Bool.false_ne_true, List.mem_map, List.mem_map]
  constructor
  · rintro ⟨found, hfound, heq⟩
    obtain ⟨n, hn, heq⟩ := Option.bind_eq_some_iff.mp heq
    obtain ⟨digits, hdigits, rfl⟩ := (mem_matchAll hsame).mpr (mem_scan.mp ⟨found, hfound, hn⟩)
    exact ⟨digits, hdigits, heq⟩
  · rintro ⟨digits, hdigits, heq⟩
    obtain ⟨found, hfound, hn⟩ := mem_scan.mpr ((mem_matchAll hsame).mp ⟨digits, hdigits, rfl⟩)
    refine ⟨found, hfound, ?_⟩
    rw [hn, Option.bind_some]
    exact heq

/-- The names looked for are the same, but for one without evidence. -/
theorem grpcPatterns_eq : Rust.grpcPatterns.map (fun p => (p.1, Rust.grpcCodeEvidence p.2)) =
    TypeScript.grpcMessageTokens ++ [("grpccodeunknown".toList, .indeterminate)] := rfl

theorem grpcEvidence_eq {message : Text} (hlower : ∀ c ∈ message, c.isUpper = false) :
    Rust.flattenedGrpcEvidence message = TypeScript.grpcMessageEvidence message := by
  have hnormalized : message.filter Char.isAlphanum = message.filter fun c => c.isLower || c.isDigit := by
    apply List.filter_congr
    intro c hc
    rw [Char.isAlphanum, Char.isAlpha, hlower c hc, Bool.false_or]
  rw [Rust.flattenedGrpcEvidence, TypeScript.grpcMessageEvidence, firstPermanent_eq, hnormalized]
  generalize (message.filter fun c => c.isLower || c.isDigit) = normalized
  have hfold : ∀ patterns : List (Text × Int), ∀ ledger,
      patterns.foldl (fun ledger p => if contains normalized p.1 then
          ledger.note (Rust.grpcCodeEvidence p.2) else ledger) ledger =
        ((patterns.map fun p => (p.1, Rust.grpcCodeEvidence p.2)).map fun t =>
          if contains normalized t.1 then some t.2 else none).foldl Rust.noteSome ledger := by
    intro patterns ledger
    rw [List.map_map, List.foldl_map]
    congr 1
    funext ledger p
    dsimp only [Function.comp]
    split <;> rfl
  rw [hfold, verdict_foldl, grpcPatterns_eq]
  apply summary_congr
  intro e he
  rw [if_neg Bool.false_ne_true, List.mem_map, List.mem_map]
  constructor
  · rintro ⟨token, htoken, heq⟩
    split at heq
    next hcontains =>
      obtain htoken | htoken := List.mem_append.mp htoken
      · exact ⟨token, List.mem_filter.mpr ⟨htoken, hcontains⟩, heq⟩
      · rw [List.mem_singleton.mp htoken] at heq
        exact absurd (Option.some.inj heq).symm he
    next => cases heq
  · rintro ⟨token, htoken, heq⟩
    obtain ⟨htoken, hcontains⟩ := List.mem_filter.mp htoken
    refine ⟨token, List.mem_append_left _ htoken, ?_⟩
    rw [if_pos hcontains]
    exact heq

/-! ## The chains -/

/-- The evidence of a text. -/
def textEvidence (message : Text) : List (Option StructuredEvidence) :=
  [TypeScript.httpMessageEvidence (message.map Char.toLower),
    TypeScript.grpcMessageEvidence (message.map Char.toLower)]

/-- Both sides know the same wordings. -/
theorem flattenedTransient_eq (message : Text) :
    Rust.flattenedTransient message = TypeScript.flattenedTransient message := rfl

/-- The wording of a text is taken as transient. -/
def worded (extra : List Text) (message : Text) : Bool :=
  TypeScript.flattenedTransient (message.map Char.toLower) || extra.any (contains (message.map Char.toLower))

theorem plain_lower {c : Char} (h : Plain c) :
    TypeScript.isSpace c.toLower = Rust.isAsciiWhitespace c.toLower ∧ c.toLower.isUpper = false := by
  have hall : ∀ n < 128, (32 ≤ n ∧ n < 127) ∨ n ∈ [9, 10, 12, 13] →
      TypeScript.isSpace (Char.ofNat n).toLower = Rust.isAsciiWhitespace (Char.ofNat n).toLower ∧
        (Char.ofNat n).toLower.isUpper = false := by
    decide
  have hcode : c.toNat < 128 ∧ ((32 ≤ c.toNat ∧ c.toNat < 127) ∨ c.toNat ∈ [9, 10, 12, 13]) := by
    obtain h | h := h
    · exact ⟨by omega, .inl h⟩
    · simp only [List.mem_cons, List.not_mem_nil, or_false] at h
      obtain rfl | rfl | rfl | rfl := h <;> decide
  have h := hall c.toNat hcode.1 hcode.2
  rw [Char.ofNat_toNat] at h
  exact h

section Chain

variable {extra : List Text}

/-- The verdict on a link without typed evidence. -/
theorem verdict_link {message : Text} (hplain : ∀ c ∈ message, Plain c) :
    (Rust.linkLedger (message.map Char.toLower) .indeterminate).verdict =
      summary (textEvidence message) := by
  have hsame : SameSpace (message.map Char.toLower) := by
    intro c hc
    obtain ⟨d, hd, rfl⟩ := List.mem_map.mp hc
    exact (plain_lower (hplain d hd)).1
  have hlower : ∀ c ∈ message.map Char.toLower, c.isUpper = false := by
    intro c hc
    obtain ⟨d, hd, rfl⟩ := List.mem_map.mp hc
    exact (plain_lower (hplain d hd)).2
  rw [Rust.linkLedger, httpEvidence_eq hsame, grpcEvidence_eq hlower]
  exact verdict_foldl (textEvidence message)

/-- The walk of the Rust side. -/
theorem walk_iff {messages : List Text} (hplain : ∀ m ∈ messages, ∀ c ∈ m, Plain c)
    (hasTransient hasFallback : Bool) :
    Rust.walk extra hasTransient hasFallback (messages.map (⟨·, .indeterminate⟩)) = true ↔
      (∀ m ∈ messages, some .permanent ∉ textEvidence m) ∧
        (hasTransient = true ∨ hasFallback = true ∨
          ∃ m ∈ messages, some .transient ∈ textEvidence m ∨ worded extra m = true) := by
  induction messages generalizing hasTransient hasFallback with
  | nil => simp [Rust.walk]
  | cons message messages ih =>
    obtain ⟨hplain, hrest⟩ := List.forall_mem_cons.mp hplain
    rw [List.map_cons, Rust.walk, verdict_link hplain]
    simp only [List.forall_mem_cons, List.exists_mem_cons_iff]
    split
    next hverdict =>
      have hperm := summary_eq_permanent.mp hverdict
      simp [hperm]
    next evidence hne hverdict =>
      have htransient : evidence = .transient := by
        cases evidence with
        | transient => rfl
        | permanent => exact absurd rfl hne
        | indeterminate => exact absurd hverdict (summary_ne_indeterminate _)
      rw [htransient] at hverdict
      obtain ⟨hperm, htrans⟩ := summary_eq_transient.mp hverdict
      rw [ih hrest]
      simp [hperm, htrans]
    next hverdict =>
      have hperm : some .permanent ∉ textEvidence message := by
        intro h
        rw [summary_eq_permanent.mpr h] at hverdict
        cases hverdict
      have htrans : some .transient ∉ textEvidence message := by
        intro h
        rw [summary_eq_transient.mpr ⟨hperm, h⟩] at hverdict
        cases hverdict
      rw [ih hrest]
      simp [hperm, htrans, worded, flattenedTransient_eq, Bool.or_assoc, or_assoc]

theorem mem_recordEvidence {message : Text} {e : StructuredEvidence} :
    some e ∈ TypeScript.recordEvidence { message := message } ↔ some e ∈ textEvidence message := by
  simp [TypeScript.recordEvidence, textEvidence, TypeScript.grpcEvidence]

/-- The walk of the TypeScript side. -/
theorem isTransientError_iff {messages : List Text} :
    TypeScript.isTransientError (messages.map ({ message := · })) extra = true ↔
      (∀ m ∈ messages, some .permanent ∉ textEvidence m) ∧
        ∃ m ∈ messages, some .transient ∈ textEvidence m ∨ worded extra m = true := by
  have hany : ∀ e : StructuredEvidence,
      ((messages.map ({ message := · } : Text → TypeScript.ErrorRecord)).flatMap
        TypeScript.recordEvidence).any (· == some e) = true ↔
          ∃ m ∈ messages, some e ∈ textEvidence m := by
    intro e
    simp [mem_recordEvidence]
  have hworded : (messages.map ({ message := · } : Text → TypeScript.ErrorRecord)).any (fun record =>
      TypeScript.flattenedTransient (record.message.map Char.toLower) ||
        extra.any (contains (record.message.map Char.toLower))) = true ↔
      ∃ m ∈ messages, worded extra m = true := by
    rw [List.any_map, List.any_eq_true]
    rfl
  have hperm := hany .permanent
  have htrans := hany .transient
  unfold TypeScript.isTransientError
  dsimp only
  split
  next h =>
    obtain ⟨m, hm, hmem⟩ := hperm.mp h
    simp only [Bool.false_eq_true, false_iff, not_and]
    exact fun hno => absurd hmem (hno m hm)
  next h =>
    have hno : ∀ m ∈ messages, some .permanent ∉ textEvidence m := fun m hm hmem => h (hperm.mpr ⟨m, hm, hmem⟩)
    split
    next h' =>
      obtain ⟨m, hm, hmem⟩ := htrans.mp h'
      simp only [true_iff]
      exact ⟨hno, m, hm, .inl hmem⟩
    next h' =>
      rw [hworded]
      constructor
      · rintro ⟨m, hm, hw⟩
        exact ⟨hno, m, hm, .inr hw⟩
      · rintro ⟨-, m, hm, hmem | hw⟩
        · exact absurd (htrans.mpr ⟨m, hm, hmem⟩) h'
        · exact ⟨m, hm, hw⟩

end Chain

/-- Both classifiers call the same errors transient. -/
theorem classifiers_agree (messages extra : List Text) (hplain : ∀ m ∈ messages, ∀ c ∈ m, Plain c) :
    Rust.isTransientErrorWith (messages.map (⟨·, .indeterminate⟩)) extra =
      TypeScript.isTransientError (messages.map ({ message := · })) extra := by
  rw [Bool.eq_iff_iff, isTransientError_iff, Rust.isTransientErrorWith, walk_iff hplain]
  simp only [Bool.false_eq_true, false_or]

theorem classifiers_agree_gateway :
    (∀ m ∈ ["proving failed".toList, "HTTP status code: 503\n".toList], ∀ c ∈ m, Plain c) ∧
      Rust.isTransientErrorWith (["proving failed".toList, "HTTP status code: 503\n".toList].map
          (⟨·, .indeterminate⟩)) ["connection error".toList] =
        TypeScript.isTransientError (["proving failed".toList, "HTTP status code: 503\n".toList].map
          ({ message := · })) ["connection error".toList] := by
  have hplain : ∀ m ∈ ["proving failed".toList, "HTTP status code: 503\n".toList], ∀ c ∈ m, Plain c := by
    have hall : ["proving failed".toList, "HTTP status code: 503\n".toList].all (fun m => m.all fun c =>
        (decide (32 ≤ c.toNat) && decide (c.toNat < 127)) || decide (c = '\n')) = true := by decide
    intro m hm c hc
    have hc' := List.all_eq_true.mp (List.all_eq_true.mp hall m hm) c hc
    simp only [Bool.or_eq_true, Bool.and_eq_true, decide_eq_true_eq] at hc'
    obtain hc' | rfl := hc'
    · exact .inl hc'
    · exact .inr (by decide)
  exact ⟨hplain, classifiers_agree _ _ hplain⟩

end Guardian.Retry
