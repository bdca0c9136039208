import Guardian.Storage

/- The search of an account's transaction history (`network/miden/mod.rs`,
   `find_transaction_ending_at`) and the block the release sweep resumes it from
   (`jobs/release_sweep/sweep.rs`, `find_executed_switch`).

   The node pages by block and says itself how far a page reaches. The search
   asks for the rest up to a tip it read first, and ends when a page has the
   transaction, when the tip is covered, or with an error when a page does not
   advance or reaches past the tip. It keeps no more than the next block to ask
   for, so what the proofs run on is the list of ranges its pages covered.

   A page with the transaction is taken before its range is checked, so the
   block reported may lie past the tip (`match_past_tip`). Otherwise a search
   that found nothing has covered every block from its start to the tip, and
   whatever it resumes from, no block is skipped (`search_leaves_no_gap`). -/
namespace Guardian.ReleaseSweep

/-- A `u32` block number. -/
abbrev BlockNum := Fin (2 ^ 32)

/-- `checked_add(1)`. -/
def BlockNum.next? (b : BlockNum) : Option BlockNum :=
  if h : b.val + 1 < 2 ^ 32 then some ⟨b.val + 1, h⟩ else none

theorem next?_eq_some {b next : BlockNum} (h : b.next? = some next) : next.val = b.val + 1 := by
  unfold BlockNum.next? at h
  split at h
  · cases h
    rfl
  · cases h

/-- A transaction of a page: `none` without a final state commitment,
`some none` where it is malformed. -/
structure TransactionRecord where
  blockNum : BlockNum
  finalStateCommitment : Option (Option String)
  deriving DecidableEq, Repr

/-- `SyncTransactionsResponse`. -/
structure TransactionPage where
  paginationInfo : Option BlockNum
  transactions : List TransactionRecord
  deriving DecidableEq, Repr

structure TransactionSearch where
  foundInBlock : Option BlockNum
  resumeFromBlock : BlockNum
  deriving DecidableEq, Repr

inductive SearchError where
  | tipUnavailable
  | pageUnavailable
  | noPaginationInfo
  | noFinalStateCommitment (block : BlockNum)
  | malformedCommitment
  | noProgress (fromBlock : BlockNum)
  | pastRequestedEnd (covered tip : BlockNum)
  deriving DecidableEq, Repr

/-- The records of a page, up to the first that ends at the target. -/
def scanRecords (target : String) : List TransactionRecord → Except SearchError (Option BlockNum)
  | [] => .ok none
  | record :: records =>
    match record.finalStateCommitment with
    | none => .error (.noFinalStateCommitment record.blockNum)
    | some none => .error .malformedCommitment
    | some (some final) =>
      if eqIgnoreAsciiCase final target then .ok (some record.blockNum)
      else scanRecords target records

/-- `scan_transaction_page`: the match, and the last block the page covers. -/
def scanTransactionPage (page : TransactionPage) (target : String) :
    Except SearchError (Option BlockNum × BlockNum) :=
  match page.paginationInfo with
  | none => .error .noPaginationInfo
  | some covered => (scanRecords target page.transactions).map (·, covered)

/-- The node: its answer to the `n`-th request of a search, for a range. -/
abbrev Node := Nat → BlockNum → BlockNum → Option TransactionPage

/-- The range a page covered. -/
abbrev Range := BlockNum × BlockNum

/-- The loop of `find_transaction_ending_at`, with the ranges its pages
covered. -/
def searchPages (node : Node) (target : String) (tip : BlockNum) (request : Nat)
    (fromBlock : BlockNum) : Except SearchError TransactionSearch × List Range :=
  if fromBlock ≤ tip then
    match node request fromBlock tip with
    | none => (.error .pageUnavailable, [])
    | some page =>
      match scanTransactionPage page target with
      | .error e => (.error e, [])
      | .ok (some block, covered) =>
        (.ok ⟨some block, covered.next?.getD covered⟩, [(fromBlock, covered)])
      | .ok (none, covered) =>
        if covered < fromBlock then (.error (.noProgress fromBlock), [])
        else if tip < covered then (.error (.pastRequestedEnd covered tip), [])
        else
          match _ : covered.next? with
          | some next =>
            let (result, ranges) := searchPages node target tip (request + 1) next
            (result, (fromBlock, covered) :: ranges)
          | none => (.ok ⟨none, fromBlock⟩, [(fromBlock, covered)])
  else (.ok ⟨none, fromBlock⟩, [])
termination_by tip.val + 1 - fromBlock.val
decreasing_by
  have hnext := next?_eq_some ‹covered.next? = some next›
  simp only [Fin.lt_def, Fin.le_def, not_lt] at *
  omega

/-- `find_transaction_ending_at`. -/
def findTransactionEndingAt (node : Node) (target : String) (fromBlock : BlockNum)
    (tip : Option BlockNum) : Except SearchError TransactionSearch × List Range :=
  match tip with
  | none => (.error .tipUnavailable, [])
  | some tip => searchPages node target tip 0 fromBlock

/-! ## Truthful pages -/

/-- The account's transactions: the final commitments of each block. -/
abbrev Finals := BlockNum → List String

/-- Some transaction of the block ends at the target. -/
def EndsAt (finals : Finals) (target : String) (block : BlockNum) : Prop :=
  ∃ final ∈ finals block, eqIgnoreAsciiCase final target = true

/-- A page holds the transactions of the range it claims, and no others. -/
def TransactionPage.Truthful (finals : Finals) (fromBlock : BlockNum) (page : TransactionPage) :
    Prop :=
  ∀ covered, page.paginationInfo = some covered → ∀ block final,
    ⟨block, some (some final)⟩ ∈ page.transactions ↔
      fromBlock ≤ block ∧ block ≤ covered ∧ final ∈ finals block

def Node.Truthful (finals : Finals) (node : Node) : Prop :=
  ∀ request fromBlock tip page, node request fromBlock tip = some page →
    page.Truthful finals fromBlock

/-- A block one of the ranges covers. -/
def InRanges (ranges : List Range) (block : BlockNum) : Prop :=
  ∃ range ∈ ranges, range.1 ≤ block ∧ block ≤ range.2

variable {finals : Finals} {target : String} {node : Node} {tip fromBlock : BlockNum}
  {ranges : List Range}

theorem next?_eq_none {b : BlockNum} (h : b.next? = none) (c : BlockNum) : c ≤ b := by
  unfold BlockNum.next? at h
  split at h
  · cases h
  · next hlast =>
    rw [Fin.le_def]
    have hc := c.isLt
    omega

/-- What a scan of the records says. -/
theorem scanRecords_ok {records : List TransactionRecord} {found : Option BlockNum}
    (h : scanRecords target records = .ok found) :
    (∀ block, found = some block → ∃ final, ⟨block, some (some final)⟩ ∈ records ∧
      eqIgnoreAsciiCase final target = true) ∧
    (found = none → ∀ block final, ⟨block, some (some final)⟩ ∈ records →
      eqIgnoreAsciiCase final target = false) := by
  induction records with
  | nil =>
    cases h
    exact ⟨nofun, nofun⟩
  | cons record records ih =>
    unfold scanRecords at h
    split at h
    · cases h
    · cases h
    · next final hfinal =>
      have hrecord : record = ⟨record.blockNum, some (some final)⟩ := by rw [← hfinal]
      split at h
      · next heq =>
        cases h
        refine ⟨fun block hb => ⟨final, ?_, heq⟩, nofun⟩
        cases hb
        exact hrecord ▸ List.mem_cons_self
      · next hne =>
        obtain ⟨hfound, hnone⟩ := ih h
        refine ⟨fun block hb => ?_, fun hno block c hmem => ?_⟩
        · obtain ⟨c, hmem, heq⟩ := hfound block hb
          exact ⟨c, .tail _ hmem, heq⟩
        · rcases List.mem_cons.mp hmem with heq | hmem
          · rw [hrecord] at heq
            cases heq
            simpa using hne
          · exact hnone hno block c hmem

/-- What a scan of a truthful page says of the blocks it covers. -/
theorem scanTransactionPage_ok {page : TransactionPage} {found : Option BlockNum}
    {covered : BlockNum} (htrue : page.Truthful finals fromBlock)
    (h : scanTransactionPage page target = .ok (found, covered)) :
    (∀ block, found = some block → fromBlock ≤ block ∧ block ≤ covered ∧
      EndsAt finals target block) ∧
    (found = none → ∀ block, fromBlock ≤ block → block ≤ covered →
      ¬EndsAt finals target block) := by
  unfold scanTransactionPage at h
  split at h
  · cases h
  · next claimed hclaimed =>
    cases hscan : scanRecords target page.transactions with
    | error e =>
      rw [hscan] at h
      cases h
    | ok scanned =>
      rw [hscan] at h
      cases h
      obtain ⟨hfound, hnone⟩ := scanRecords_ok hscan
      have hexact := htrue covered hclaimed
      refine ⟨fun block hb => ?_, fun hno block hfrom hto => ?_⟩
      · obtain ⟨final, hmem, heq⟩ := hfound block hb
        obtain ⟨hfrom, hto, hfinal⟩ := (hexact block final).mp hmem
        exact ⟨hfrom, hto, final, hfinal, heq⟩
      · rintro ⟨final, hfinal, heq⟩
        have hmiss := hnone hno block final ((hexact block final).mpr ⟨hfrom, hto, hfinal⟩)
        rw [heq] at hmiss
        cases hmiss

/-! ## A search -/

/-- What a search that ended without error says, with the ranges its pages
covered. -/
structure Searched (finals : Finals) (target : String) (fromBlock tip : BlockNum)
    (search : TransactionSearch) (ranges : List Range) : Prop where
  /-- No page reaches back before the start. -/
  starts : ∀ block, InRanges ranges block → fromBlock ≤ block
  found : ∀ block, search.foundInBlock = some block →
    InRanges ranges block ∧ EndsAt finals target block
  missed : search.foundInBlock = none → ∀ block, InRanges ranges block →
    ¬EndsAt finals target block
  /-- Without a match the tip was reached, and no page went past it. -/
  through : search.foundInBlock = none → ∀ block, fromBlock ≤ block → block ≤ tip →
    InRanges ranges block
  within : search.foundInBlock = none → ∀ block, InRanges ranges block → block ≤ tip
  resumes : fromBlock ≤ search.resumeFromBlock
  noGap : ∀ block, fromBlock ≤ block → block < search.resumeFromBlock → InRanges ranges block

theorem covered_cons {range : Range} {block : BlockNum} :
    InRanges (range :: ranges) block ↔
      (range.1 ≤ block ∧ block ≤ range.2) ∨ InRanges ranges block := by
  simp [InRanges]

theorem not_inRanges_nil (block : BlockNum) : ¬InRanges [] block := nofun

/-- A page without a match, before the rest of the search. -/
theorem Searched.cons {covered next : BlockNum} {search : TransactionSearch}
    (h : Searched finals target next tip search ranges) (hnext : next.val = covered.val + 1)
    (hfrom : fromBlock ≤ covered) (htip : covered ≤ tip)
    (hmiss : ∀ block, fromBlock ≤ block → block ≤ covered → ¬EndsAt finals target block) :
    Searched finals target fromBlock tip search ((fromBlock, covered) :: ranges) := by
  -- a block past the page is the rest's
  have hpast : ∀ block, ¬block ≤ covered → next ≤ block := by
    intro block hb
    simp only [Fin.le_def, not_le] at hb ⊢
    omega
  have hstart : fromBlock ≤ next := by
    simp only [Fin.le_def] at hfrom ⊢
    omega
  refine ⟨fun block hb => ?_, fun block hb => ?_, fun hno block hb => ?_, fun hno block hge hle => ?_,
    fun hno block hb => ?_, hstart.trans h.resumes, fun block hge hlt => ?_⟩
  · rcases covered_cons.mp hb with hb | hb
    · exact hb.1
    · exact hstart.trans (h.starts block hb)
  · obtain ⟨hcovered, hends⟩ := h.found block hb
    exact ⟨covered_cons.mpr (.inr hcovered), hends⟩
  · rcases covered_cons.mp hb with hb | hb
    · exact hmiss block hb.1 hb.2
    · exact h.missed hno block hb
  · by_cases hin : block ≤ covered
    · exact covered_cons.mpr (.inl ⟨hge, hin⟩)
    · exact covered_cons.mpr (.inr (h.through hno block (hpast block hin) hle))
  · rcases covered_cons.mp hb with hb | hb
    · exact hb.2.trans htip
    · exact h.within hno block hb
  · by_cases hin : block ≤ covered
    · exact covered_cons.mpr (.inl ⟨hge, hin⟩)
    · exact covered_cons.mpr (.inr (h.noGap block (hpast block hin) hlt))

/-- Nothing is left to search. -/
theorem searched_nothing (h : ¬fromBlock ≤ tip) :
    Searched finals target fromBlock tip ⟨none, fromBlock⟩ [] where
  starts := fun block hb => absurd hb (not_inRanges_nil block)
  found := nofun
  missed := fun _ block hb => absurd hb (not_inRanges_nil block)
  through := fun _ _ hge hle => absurd (hge.trans hle) h
  within := fun _ block hb => absurd hb (not_inRanges_nil block)
  resumes := le_rfl
  noGap := fun _ hge hlt => absurd hge (not_le.mpr hlt)

/-- The page has a match; how far it claims to reach is not checked. -/
theorem searched_match {block covered : BlockNum} (hfrom : fromBlock ≤ block)
    (hto : block ≤ covered) (hends : EndsAt finals target block) :
    Searched finals target fromBlock tip ⟨some block, covered.next?.getD covered⟩
      [(fromBlock, covered)] := by
  have hresume : covered ≤ covered.next?.getD covered ∧
      (covered.next?.getD covered).val ≤ covered.val + 1 := by
    cases hnext : covered.next? with
    | none => exact ⟨le_rfl, Nat.le_succ _⟩
    | some next =>
      have hval := next?_eq_some hnext
      simp only [Option.getD_some, Fin.le_def]
      omega
  refine ⟨fun b hb => ?_, fun b hb => ?_, nofun, nofun, nofun, ?_, fun b hge hlt => ?_⟩
  · rcases covered_cons.mp hb with hb | hb
    · exact hb.1
    · exact absurd hb (not_inRanges_nil b)
  · cases hb
    exact ⟨covered_cons.mpr (.inl ⟨hfrom, hto⟩), hends⟩
  · exact (hfrom.trans hto).trans hresume.1
  · refine covered_cons.mpr (.inl ⟨hge, ?_⟩)
    simp only [Fin.lt_def, Fin.le_def] at hlt ⊢
    omega

/-- The last page ends at the last block there can be. -/
theorem searched_last {covered : BlockNum} (hlast : covered.next? = none)
    (htip : covered ≤ tip)
    (hmiss : ∀ block, fromBlock ≤ block → block ≤ covered → ¬EndsAt finals target block) :
    Searched finals target fromBlock tip ⟨none, fromBlock⟩ [(fromBlock, covered)] := by
  have hin : ∀ {block}, InRanges [(fromBlock, covered)] block →
      fromBlock ≤ block ∧ block ≤ covered := by
    intro block hb
    rcases covered_cons.mp hb with hb | hb
    · exact hb
    · exact absurd hb (not_inRanges_nil block)
  exact ⟨fun _ hb => (hin hb).1, nofun, fun _ b hb => hmiss b (hin hb).1 (hin hb).2,
    fun _ b hge _ => covered_cons.mpr (.inl ⟨hge, next?_eq_none hlast b⟩),
    fun _ _ hb => (hin hb).2.trans htip, le_rfl, fun _ hge hlt => absurd hge (not_le.mpr hlt)⟩

theorem searchPages_searched (htrue : node.Truthful finals) (tip : BlockNum) (request : Nat)
    (fromBlock : BlockNum) {search : TransactionSearch}
    (h : (searchPages node target tip request fromBlock).1 = .ok search) :
    Searched finals target fromBlock tip search
      (searchPages node target tip request fromBlock).2 := by
  fun_induction searchPages node target tip request fromBlock with
  | case1 => cases h
  | case2 => cases h
  | case3 request fromBlock _ page hpage block covered hscan =>
    obtain ⟨hfound, _⟩ := scanTransactionPage_ok (htrue _ _ _ _ hpage) hscan
    obtain ⟨hfrom, hto, hends⟩ := hfound block rfl
    cases h
    exact searched_match hfrom hto hends
  | case4 => cases h
  | case5 => cases h
  | case6 request fromBlock _ page hpage covered hscan hprogress hend next hnext result ranges
      hrest ih =>
    obtain ⟨_, hmiss⟩ := scanTransactionPage_ok (htrue _ _ _ _ hpage) hscan
    rw [hrest] at ih
    exact (ih h).cons (next?_eq_some hnext) (not_lt.mp hprogress) (not_lt.mp hend) (hmiss rfl)
  | case7 request fromBlock _ page hpage covered hscan hprogress hend hlast =>
    obtain ⟨_, hmiss⟩ := scanTransactionPage_ok (htrue _ _ _ _ hpage) hscan
    cases h
    exact searched_last hlast (not_lt.mp hend) (hmiss rfl)
  | case8 request fromBlock hpast =>
    cases h
    exact searched_nothing hpast

/-! ## The carried watermark -/

/-- `SwitchEvidence::resume_from_block`, with the ranges searched for it. -/
structure Watermark where
  resumeFromBlock : BlockNum
  searched : List Range

/-- What a visit does to a candidate's evidence: search on, or forget it
(`retain_switches`, or a base that moved). -/
inductive Visit where
  | search (node : Node) (tip : Option BlockNum)
  | forget

/-- The watermark of new evidence. -/
def Watermark.new : Watermark := ⟨0, []⟩

/-- `find_executed_switch`, for one candidate: only a search that ended without
error and without a match moves the watermark (`set_resume_block`). -/
def Watermark.visit (target : String) (mark : Watermark) : Visit → Watermark
  | .search node tip =>
    match findTransactionEndingAt node target mark.resumeFromBlock tip with
    | (.ok ⟨none, next⟩, ranges) => ⟨next, mark.searched ++ ranges⟩
    | _ => mark
  | .forget => .new

/-- Everything before the watermark was searched, in vain. -/
def Watermark.Sound (finals : Finals) (target : String) (mark : Watermark) : Prop :=
  ∀ block, block < mark.resumeFromBlock →
    InRanges mark.searched block ∧ ¬EndsAt finals target block

theorem covered_append {xs ys : List Range} {block : BlockNum} :
    InRanges (xs ++ ys) block ↔ InRanges xs block ∨ InRanges ys block := by
  simp [InRanges, or_and_right, exists_or]

theorem sound_new : Watermark.new.Sound finals target :=
  fun block hb => absurd hb (not_lt.mpr (Fin.zero_le block))

theorem Watermark.Sound.visit {mark : Watermark} (h : mark.Sound finals target) {v : Visit}
    (htrue : ∀ node tip, v = .search node tip → node.Truthful finals) :
    (mark.visit target v).Sound finals target := by
  cases v with
  | forget => exact sound_new
  | search node tip =>
    unfold Watermark.visit
    dsimp only
    split
    · next next ranges hsearch =>
      cases tip with
      | none => cases congrArg Prod.fst hsearch
      | some tip =>
        have hresult : (searchPages node target tip 0 mark.resumeFromBlock).1 = .ok ⟨none, next⟩ :=
          congrArg Prod.fst hsearch
        have hranges : (searchPages node target tip 0 mark.resumeFromBlock).2 = ranges :=
          congrArg Prod.snd hsearch
        have hsearched := searchPages_searched (htrue node _ rfl) tip 0 _ hresult
        rw [hranges] at hsearched
        intro block hb
        by_cases hold : block < mark.resumeFromBlock
        · obtain ⟨hcovered, hmiss⟩ := h block hold
          exact ⟨covered_append.mpr (.inl hcovered), hmiss⟩
        · -- the new part of the range is this search's
          have hcovered := hsearched.noGap block (not_lt.mp hold) hb
          exact ⟨covered_append.mpr (.inr hcovered), hsearched.missed rfl block hcovered⟩
    · exact h

theorem Watermark.Sound.visits {visits : List Visit} {mark : Watermark}
    (h : mark.Sound finals target)
    (htrue : ∀ node tip, .search node tip ∈ visits → node.Truthful finals) :
    (visits.foldl (Watermark.visit target) mark).Sound finals target := by
  induction visits generalizing mark with
  | nil => exact h
  | cons v visits ih =>
    refine ih (h.visit fun node tip hv => htrue node tip (hv ▸ List.mem_cons_self)) ?_
    exact fun node tip hmem => htrue node tip (.tail _ hmem)

/-- With truthful pages, a search that ends without error reports a match exactly
when the blocks its pages covered have one. Those are blocks from the start on:
all of them up to the tip when there is no match, past the tip only in the page
with the match. No block before the one to resume from is left out; and neither
is any by searches carried over any number of visits. -/
theorem search_leaves_no_gap (finals : Finals) (target : String) :
    (∀ node fromBlock tip search ranges, Node.Truthful finals node →
      findTransactionEndingAt node target fromBlock (some tip) = (.ok search, ranges) →
        (search.foundInBlock.isSome = true ↔
          ∃ block, InRanges ranges block ∧ EndsAt finals target block) ∧
        (∀ block, search.foundInBlock = some block →
          InRanges ranges block ∧ EndsAt finals target block) ∧
        (∀ block, InRanges ranges block →
          fromBlock ≤ block ∧ (block ≤ tip ∨ search.foundInBlock.isSome = true)) ∧
        (search.foundInBlock = none → ∀ block, fromBlock ≤ block → block ≤ tip →
          InRanges ranges block) ∧
        ∀ block, fromBlock ≤ block → block < search.resumeFromBlock → InRanges ranges block) ∧
    ∀ visits : List Visit, (∀ node tip, .search node tip ∈ visits → node.Truthful finals) →
      ∀ block, block < (visits.foldl (Watermark.visit target) .new).resumeFromBlock →
        InRanges (visits.foldl (Watermark.visit target) .new).searched block ∧
          ¬EndsAt finals target block := by
  constructor
  · intro node fromBlock tip search ranges htrue hsearch
    have hresult : (searchPages node target tip 0 fromBlock).1 = .ok search :=
      congrArg Prod.fst hsearch
    have hranges : (searchPages node target tip 0 fromBlock).2 = ranges :=
      congrArg Prod.snd hsearch
    have h := searchPages_searched htrue tip 0 fromBlock hresult
    rw [hranges] at h
    refine ⟨⟨fun hsome => ?_, ?_⟩, h.found, fun block hb => ⟨h.starts block hb, ?_⟩, h.through,
      h.noGap⟩
    · obtain ⟨block, hblock⟩ := Option.isSome_iff_exists.mp hsome
      exact ⟨block, h.found block hblock⟩
    · rintro ⟨block, hcovered, hends⟩
      cases hfound : search.foundInBlock with
      | some _ => rfl
      | none => exact absurd hends (h.missed hfound block hcovered)
    · cases hfound : search.foundInBlock with
      | some _ => exact .inr rfl
      | none => exact .inl (h.within hfound block hb)
  · intro visits htrue
    exact sound_new.visits htrue

namespace Demo

/-- Block 12 holds the transaction. -/
def landed : Finals := fun block => if block = 12 then ["t"] else []

/-- A node that answers through its own tip, block 12, whatever end it is
asked for. -/
def ahead : Node := fun _ fromBlock _ =>
  some ⟨some 12, if fromBlock ≤ 12 then [⟨12, some (some "t")⟩] else []⟩

/-- A node whose pages have two blocks, or what is left of the request. -/
def pairs : Node := fun _ fromBlock tip =>
  let last := if fromBlock + 1 ≤ tip then fromBlock + 1 else tip
  some ⟨some last, if fromBlock ≤ 12 ∧ 12 ≤ last then [⟨12, some (some "t")⟩] else []⟩

theorem truthful_pairs : Node.Truthful landed pairs := by
  intro request fromBlock tip page hpage covered hcovered block final
  cases hpage
  cases hcovered
  -- whatever block the page ends at
  generalize (if fromBlock + 1 ≤ tip then fromBlock + 1 else tip) = last
  split
  · next hin =>
    rw [List.mem_singleton]
    unfold landed
    constructor
    · rintro heq
      cases heq
      exact ⟨hin.1, hin.2, by simp⟩
    · rintro ⟨_, _, hfinal⟩
      split at hfinal
      · next hblock =>
        rw [hblock, List.mem_singleton.mp hfinal]
      · cases hfinal
  · next hout =>
    refine ⟨nofun, ?_⟩
    rintro ⟨hge, hle, hfinal⟩
    unfold landed at hfinal
    split at hfinal
    · next hblock =>
      subst hblock
      exact absurd ⟨hge, hle⟩ hout
    · cases hfinal

theorem truthful_ahead : Node.Truthful landed ahead := by
  intro request fromBlock tip page hpage covered hcovered block final
  cases hpage
  cases hcovered
  by_cases hfrom : fromBlock ≤ 12
  · rw [if_pos hfrom, List.mem_singleton]
    unfold landed
    constructor
    · rintro heq
      cases heq
      exact ⟨hfrom, le_rfl, by simp⟩
    · rintro ⟨_, _, hfinal⟩
      split at hfinal
      · next hblock =>
        rw [hblock, List.mem_singleton.mp hfinal]
      · cases hfinal
  · rw [if_neg hfrom]
    refine ⟨nofun, ?_⟩
    rintro ⟨hge, hle, _⟩
    exact absurd (hge.trans hle) hfrom

end Demo

/-- Two visits, each of two pages, cover blocks 0 to 6 and find nothing; a search from
block 10 on finds block 12 in its second page. -/
theorem search_leaves_no_gap_pages :
    (∀ block : BlockNum, block < 7 →
      InRanges ([Visit.search Demo.pairs (some 2), Visit.search Demo.pairs (some 6)].foldl
        (Watermark.visit "t") .new).searched block ∧ ¬EndsAt Demo.landed "t" block) ∧
      ∃ search ranges, findTransactionEndingAt Demo.pairs "t" 10 (some 14) = (.ok search, ranges) ∧
        search = ⟨some 12, 14⟩ ∧ ranges = [(10, 11), (12, 13)] ∧ InRanges ranges 12 ∧
        EndsAt Demo.landed "t" 12 := by
  have hfirst : findTransactionEndingAt Demo.pairs "t" 0 (some 2) =
      (.ok ⟨none, 3⟩, [(0, 1), (2, 2)]) := by
    simp [findTransactionEndingAt, searchPages, Demo.pairs, scanTransactionPage, scanRecords,
      Except.map, BlockNum.next?]
  have hsecond : findTransactionEndingAt Demo.pairs "t" 3 (some 6) =
      (.ok ⟨none, 7⟩, [(3, 4), (5, 6)]) := by
    simp [findTransactionEndingAt, searchPages, Demo.pairs, scanTransactionPage, scanRecords,
      Except.map, BlockNum.next?]
  have hfound : findTransactionEndingAt Demo.pairs "t" 10 (some 14) =
      (.ok ⟨some 12, 14⟩, [(10, 11), (12, 13)]) := by
    simp [findTransactionEndingAt, searchPages, Demo.pairs, scanTransactionPage, scanRecords,
      Except.map, BlockNum.next?, eqIgnoreAsciiCase]
  have hresume : ([Visit.search Demo.pairs (some 2), Visit.search Demo.pairs (some 6)].foldl
      (Watermark.visit "t") .new).resumeFromBlock = 7 := by
    simp only [List.foldl_cons, List.foldl_nil, Watermark.visit, Watermark.new, hfirst, hsecond]
  have hall := (search_leaves_no_gap Demo.landed "t").2
    [.search Demo.pairs (some 2), .search Demo.pairs (some 6)] (fun node tip hmem => by
      simp only [List.mem_cons, Visit.search.injEq, List.not_mem_nil, or_false] at hmem
      rcases hmem with ⟨rfl, -⟩ | ⟨rfl, -⟩
      · exact Demo.truthful_pairs
      · exact Demo.truthful_pairs)
  rw [hresume] at hall
  have hmatch := ((search_leaves_no_gap Demo.landed "t").1 Demo.pairs 10 14 _ _
    Demo.truthful_pairs hfound).2.1 12 rfl
  exact ⟨hall, _, _, hfound, rfl, rfl, hmatch.1, hmatch.2⟩

theorem match_past_tip :
    ¬∀ (finals : Finals) (target : String) (node : Node) (fromBlock tip : BlockNum)
      (search : TransactionSearch), node.Truthful finals →
        (findTransactionEndingAt node target fromBlock (some tip)).1 = .ok search →
          (search.foundInBlock.isSome = true ↔
            ∃ block, fromBlock ≤ block ∧ block ≤ tip ∧ EndsAt finals target block) := by
  intro hall
  have hsearch : (findTransactionEndingAt Demo.ahead "t" 0 (some 10)).1 = .ok ⟨some 12, 13⟩ := by
    rw [findTransactionEndingAt, searchPages]
    simp [Demo.ahead, scanTransactionPage, scanRecords, eqIgnoreAsciiCase, Except.map,
      BlockNum.next?]
  obtain ⟨block, _, hle, final, hfinal, _⟩ :=
    (hall Demo.landed "t" Demo.ahead 0 10 ⟨some 12, 13⟩ Demo.truthful_ahead hsearch).mp rfl
  unfold Demo.landed at hfinal
  split at hfinal
  · next hblock =>
    rw [hblock] at hle
    exact absurd hle (by decide)
  · cases hfinal

end Guardian.ReleaseSweep
