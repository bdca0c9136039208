import Guardian.DeltaObject
import Guardian.Lib.Keyset
import Mathlib.Data.Prod.Lex
import Mathlib.Data.String.Basic

/- The pages of the fast pass (`pull_recent_candidate_deltas` of both backends, and the
   loop of `process_recent_pass`).

   Each backend orders the recent candidates by a key of three parts and returns the
   first page past a cursor. Postgres keeps the timestamp to the microsecond and the
   nonce as the signed reading of its 64 bits; its cursor is read back from the row, and
   a nonce from `2 ^ 63` on does not convert: the page after it cannot be read, in that
   pass or a later one, since the cursor is kept. Where no cursor has such a nonce, and
   always on the filesystem, a sweep returns every row that is there throughout exactly
   once (`sweeps_iff`).

   Account ids are compared as the backend's collation orders them: any linear order.
   Timestamps are nanoseconds. -/
namespace Guardian.Recent

variable {A : Type} [LinearOrder A]

/-- A candidate row: what orders it. -/
structure Candidate (A : Type) where
  accountId : A
  nonce : Nonce
  statusTimestamp : Int
  deriving DecidableEq

/-- `RecentCandidateCursor`. -/
structure Cursor (A : Type) where
  lastStatusTimestamp : Int
  lastAccountId : A
  lastNonce : Nonce
  deriving DecidableEq

/-- `recent_candidate_cursor`. -/
def Cursor.of (candidate : Candidate A) : Cursor A :=
  ⟨candidate.statusTimestamp, candidate.accountId, candidate.nonce⟩

/-- `FAST_PROMOTION_PAGE_SIZE`. -/
def fastPromotionPageSize : Nat := 100

inductive Backend where
  | postgres
  | filesystem
  deriving DecidableEq, Repr

/-! ## Postgres -/

/-- A timestamp as the column holds it (`postgres_timestamp_precision`). -/
def micros (timestamp : Int) : Int := timestamp / 1000

/-- The order of the query. -/
def postgresKey (c : Candidate A) : Int ×ₗ A ×ₗ Int :=
  toLex (micros c.statusTimestamp, toLex (c.accountId, nonceColumn c.nonce))

/-- The filter a cursor adds. -/
def pastCursor (cursor : Cursor A) (c : Candidate A) : Bool :=
  let last := micros cursor.lastStatusTimestamp
  decide (last < micros c.statusTimestamp) ||
    (decide (micros c.statusTimestamp = last) && decide (cursor.lastAccountId < c.accountId)) ||
    (decide (micros c.statusTimestamp = last) && decide (c.accountId = cursor.lastAccountId) &&
      decide ((cursor.lastNonce.toNat : Int) < nonceColumn c.nonce))

/-- `PostgresService::pull_recent_candidate_deltas`. -/
def pullPostgres (rows : List (Candidate A)) (since : Int) (cursor : Option (Cursor A))
    (limit : Nat) : Except String (List (Candidate A)) := do
  let recent := rows.filter fun c => decide (micros since < micros c.statusTimestamp)
  let found ← match cursor with
    | none => pure recent
    | some cursor =>
      -- `i64::try_from`
      if 2 ^ 63 ≤ cursor.lastNonce.toNat then throw "Recent candidate cursor nonce exceeds i64"
      else pure (recent.filter (pastCursor cursor))
  return (found.mergeSort fun a b => decide (postgresKey a ≤ postgresKey b)).take limit

/-! ## Filesystem -/

/-- The order of the sort, and of the tuples compared with the cursor's. -/
def filesystemKey (c : Candidate A) : Int ×ₗ A ×ₗ Nat :=
  toLex (c.statusTimestamp, toLex (c.accountId, c.nonce.toNat))

def Cursor.filesystemKey (cursor : Cursor A) : Int ×ₗ A ×ₗ Nat :=
  toLex (cursor.lastStatusTimestamp, toLex (cursor.lastAccountId, cursor.lastNonce.toNat))

/-- `FilesystemService::pull_recent_candidate_deltas`. -/
def pullFilesystem (rows : List (Candidate A)) (since : Int) (cursor : Option (Cursor A))
    (limit : Nat) : List (Candidate A) :=
  let recent := rows.filter fun c => decide (since < c.statusTimestamp)
  let sorted := recent.mergeSort fun a b =>
    decide (Recent.filesystemKey a ≤ Recent.filesystemKey b)
  (sorted.filter fun c => cursor.all fun cursor =>
    decide (cursor.filesystemKey < Recent.filesystemKey c)).take limit

/-- The page a backend returns. -/
def pull (backend : Backend) (rows : List (Candidate A)) (since : Int)
    (cursor : Option (Cursor A)) : Except String (List (Candidate A)) :=
  match backend with
  | .postgres => pullPostgres rows since cursor fastPromotionPageSize
  | .filesystem => .ok (pullFilesystem rows since cursor fastPromotionPageSize)

/-- A candidate younger than the cutoff, as the backend compares them. -/
def Younger (backend : Backend) (since : Int) (c : Candidate A) : Prop :=
  match backend with
  | .postgres => micros since < micros c.statusTimestamp
  | .filesystem => since < c.statusTimestamp

/-! ## The fast pass -/

/-- The cursor kept after a page: none after one that is not full. -/
def movedCursor (page : List (Candidate A)) : Option (Cursor A) :=
  if page.length < fastPromotionPageSize then none else page.getLast?.map Cursor.of

/-- The cursor kept after a pull. A page pulled as admission closes is not worked; an
    empty one ends the sweep all the same. -/
def afterPull (backend : Backend) (rows : List (Candidate A)) (since : Int) (admitted : Bool)
    (cursor : Option (Cursor A)) : Option (Cursor A) :=
  match pull backend rows since cursor with
  | .ok page => if page.isEmpty || admitted then movedCursor page else cursor
  | .error _ => cursor

/-- The pulls of the fast pass, from a start without a cursor on. What is queued and how
    old it may be can be different at each; an account has one row at a nonce. -/
structure Pulls (A : Type) [LinearOrder A] (backend : Backend) where
  rows : Nat → List (Candidate A)
  since : Nat → Int
  admitted : Nat → Bool
  cursor : Nat → Option (Cursor A)
  unique : ∀ j, (rows j).Pairwise fun a b => a.accountId = b.accountId → a.nonce ≠ b.nonce
  fresh : cursor 0 = none
  step : ∀ j, cursor (j + 1) = afterPull backend (rows j) (since j) (admitted j) (cursor j)

variable {backend : Backend}

/-- What a pull returns to be worked. -/
def Pulls.returned (pulls : Pulls A backend) (j : Nat) : List (Candidate A) :=
  match pull backend (pulls.rows j) (pulls.since j) (pulls.cursor j) with
  | .ok page => if page.isEmpty || pulls.admitted j then page else []
  | .error _ => []

/-- Pulls `first` to `last` are one sweep: no cursor before it, none after it, one at
    each pull between. -/
structure Pulls.SweepOf (pulls : Pulls A backend) (first last : Nat) : Prop where
  le : first ≤ last
  begins : pulls.cursor first = none
  between : ∀ j, first < j → j ≤ last → pulls.cursor j ≠ none
  ends : pulls.cursor (last + 1) = none
  worked : ∀ page, pull backend (pulls.rows last) (pulls.since last) (pulls.cursor last) = .ok page →
    (page.isEmpty || pulls.admitted last) = true

/-- No pull fails, and a sweep returns each candidate that stays queued and young
    exactly once. -/
def Pulls.Complete (pulls : Pulls A backend) : Prop :=
  (∀ j, ∃ page, pull backend (pulls.rows j) (pulls.since j) (pulls.cursor j) = .ok page) ∧
  ∀ first last, pulls.SweepOf first last → ∀ c : Candidate A,
    (∀ j, first ≤ j → j ≤ last → c ∈ pulls.rows j ∧ Younger backend (pulls.since j) c) →
    ∃ j, (first ≤ j ∧ j ≤ last ∧ c ∈ pulls.returned j ∧ (pulls.returned j).Nodup) ∧
      ∀ i, first ≤ i → i ≤ last → c ∈ pulls.returned i → i = j

/-! ## The pages are pages by a key -/

/-- The cursor of a row is the key of the row: the nonce is read back as it was. -/
def Cursor.postgresKey (cursor : Cursor A) : Int ×ₗ A ×ₗ Int :=
  toLex (micros cursor.lastStatusTimestamp, toLex (cursor.lastAccountId, nonceColumn cursor.lastNonce))

theorem nonceColumn_of_lt {n : Nonce} (h : n.toNat < 2 ^ 63) : nonceColumn n = n.toNat := by
  rw [nonceColumn, BitVec.toInt_eq_toNat_cond, if_pos (by omega)]

theorem pastCursor_iff {cursor : Cursor A} (h : cursor.lastNonce.toNat < 2 ^ 63) (c : Candidate A) :
    pastCursor cursor c = true ↔ cursor.postgresKey < postgresKey c := by
  rw [Cursor.postgresKey, postgresKey, Prod.Lex.toLex_lt_toLex, Prod.Lex.toLex_lt_toLex,
    nonceColumn_of_lt h]
  simp only [pastCursor, Bool.or_eq_true, Bool.and_eq_true, decide_eq_true_eq]
  constructor
  · rintro ((hts | ⟨hts, hid⟩) | ⟨⟨hts, hid⟩, hnonce⟩)
    · exact .inl hts
    · exact .inr ⟨hts.symm, .inl hid⟩
    · exact .inr ⟨hts.symm, .inr ⟨hid.symm, hnonce⟩⟩
  · rintro (hts | ⟨hts, hid | ⟨hid, hnonce⟩⟩)
    · exact .inl (.inl hts)
    · exact .inl (.inr ⟨hts.symm, hid⟩)
    · exact .inr ⟨⟨hts.symm, hid.symm⟩, hnonce⟩

section Keys

variable {rows : List (Candidate A)}

omit [LinearOrder A] in
theorem postgresKey_ne (h : rows.Pairwise fun a b => a.accountId = b.accountId → a.nonce ≠ b.nonce) :
    rows.Pairwise fun a b => postgresKey a ≠ postgresKey b := by
  refine h.imp ?_
  intro a b hne hkey
  obtain ⟨-, hrest⟩ := Prod.mk.inj (toLex.injective hkey)
  obtain ⟨hid, hnonce⟩ := Prod.mk.inj (toLex.injective hrest)
  exact hne hid (nonceColumn_inj hnonce)

omit [LinearOrder A] in
theorem filesystemKey_ne
    (h : rows.Pairwise fun a b => a.accountId = b.accountId → a.nonce ≠ b.nonce) :
    rows.Pairwise fun a b => filesystemKey a ≠ filesystemKey b := by
  refine h.imp ?_
  intro a b hne hkey
  obtain ⟨-, hrest⟩ := Prod.mk.inj (toLex.injective hkey)
  obtain ⟨hid, hnonce⟩ := Prod.mk.inj (toLex.injective hrest)
  exact hne hid (BitVec.eq_of_toNat_eq hnonce)

end Keys

/-- The rows a pull looks at. -/
def youngRows (backend : Backend) (rows : List (Candidate A)) (since : Int) : List (Candidate A) :=
  match backend with
  | .postgres => rows.filter fun c => decide (micros since < micros c.statusTimestamp)
  | .filesystem => rows.filter fun c => decide (since < c.statusTimestamp)

omit [LinearOrder A] in
theorem mem_youngRows {rows : List (Candidate A)} {since : Int} {c : Candidate A} :
    c ∈ youngRows backend rows since ↔ c ∈ rows ∧ Younger backend since c := by
  cases backend <;> simp only [youngRows, Younger, List.mem_filter, decide_eq_true_eq]

/-- A pull fails only over its cursor's nonce. -/
theorem pullPostgres_spec {rows : List (Candidate A)} {since : Int} {cursor : Option (Cursor A)}
    {limit : Nat}
    (hrows : rows.Pairwise fun a b => a.accountId = b.accountId → a.nonce ≠ b.nonce)
    (hcursor : ∀ c, cursor = some c → c.lastNonce.toNat < 2 ^ 63) :
    ∃ page, pullPostgres rows since cursor limit = .ok page ∧
      Keyset.IsPage postgresKey limit (youngRows .postgres rows since)
        (cursor.map Cursor.postgresKey) page := by
  have hyoung : (youngRows .postgres rows since).Pairwise fun a b =>
      postgresKey a ≠ postgresKey b := (postgresKey_ne hrows).sublist List.filter_sublist
  cases cursor with
  | none =>
    refine ⟨_, rfl, Keyset.isPage_take ?_ (Keyset.pairwise_mergeSort hyoung)⟩
    intro r
    rw [List.mem_mergeSort]
    exact ⟨fun hr => ⟨hr, fun c hc => by cases hc⟩, fun hr => hr.1⟩
  | some c =>
    have hlt := hcursor c rfl
    have hpull : pullPostgres rows since (some c) limit =
        .ok ((((youngRows .postgres rows since).filter (pastCursor c)).mergeSort fun a b =>
          decide (postgresKey a ≤ postgresKey b)).take limit) := by
      simp only [pullPostgres, if_neg (Nat.not_le.mpr hlt)]
      rfl
    refine ⟨_, hpull, Keyset.isPage_take ?_
      (Keyset.pairwise_mergeSort (hyoung.sublist List.filter_sublist))⟩
    intro r
    rw [List.mem_mergeSort, List.mem_filter, pastCursor_iff hlt]
    refine and_congr_right fun _ => ⟨?_, ?_⟩
    · intro hr d hd
      cases hd
      exact hr
    · intro hr
      exact hr _ rfl

theorem pullFilesystem_spec {rows : List (Candidate A)} {since : Int} {cursor : Option (Cursor A)}
    {limit : Nat}
    (hrows : rows.Pairwise fun a b => a.accountId = b.accountId → a.nonce ≠ b.nonce) :
    Keyset.IsPage filesystemKey limit (youngRows .filesystem rows since)
      (cursor.map Cursor.filesystemKey) (pullFilesystem rows since cursor limit) := by
  have hyoung : (youngRows .filesystem rows since).Pairwise fun a b =>
      filesystemKey a ≠ filesystemKey b := (filesystemKey_ne hrows).sublist List.filter_sublist
  refine Keyset.isPage_take ?_ ((Keyset.pairwise_mergeSort hyoung).sublist List.filter_sublist)
  intro r
  rw [List.mem_filter, List.mem_mergeSort]
  refine and_congr_right fun _ => ?_
  cases cursor with
  | none => exact ⟨fun _ c hc => (by cases hc), fun _ => rfl⟩
  | some c =>
    rw [Option.all_some, decide_eq_true_eq]
    refine ⟨?_, fun hr => hr _ rfl⟩
    intro hr d hd
    cases hd
    exact hr

/-! ## Sweeps -/

/-- The page of a pull that succeeds. -/
def Pulls.page (pulls : Pulls A backend) (j : Nat) : List (Candidate A) :=
  match pull backend (pulls.rows j) (pulls.since j) (pulls.cursor j) with
  | .ok page => page
  | .error _ => []

/-- Whether a pull moves the cursor. -/
def Pulls.moves (pulls : Pulls A backend) (j : Nat) : Bool :=
  (pulls.page j).isEmpty || pulls.admitted j

theorem Pulls.mem_returned (pulls : Pulls A backend) {j : Nat} {c : Candidate A} :
    c ∈ pulls.returned j ↔ pulls.moves j = true ∧ c ∈ pulls.page j := by
  rw [Pulls.returned, Pulls.moves, Pulls.page]
  cases pull backend (pulls.rows j) (pulls.since j) (pulls.cursor j) with
  | error e => simp
  | ok page =>
    dsimp only
    split
    next hmoves => simp only [hmoves, true_and]
    next hstays =>
      constructor
      · intro h
        cases h
      · rintro ⟨hmoves, -⟩
        exact absurd hmoves hstays

section Sweeps

variable {κ : Type} [LinearOrder κ] {key : Candidate A → κ} {cursorKey : Cursor A → κ}

/-- The pulls of a backend whose pages are by a key, its cursors keys of their rows. -/
theorem Pulls.sweep (pulls : Pulls A backend) (hkey : ∀ c, cursorKey (Cursor.of c) = key c)
    (hok : ∀ j, ∃ page, pull backend (pulls.rows j) (pulls.since j) (pulls.cursor j) = .ok page ∧
      Keyset.IsPage key fastPromotionPageSize (youngRows backend (pulls.rows j) (pulls.since j))
        ((pulls.cursor j).map cursorKey) page)
    {first last : Nat} (h : pulls.SweepOf first last) :
    Keyset.Sweep key fastPromotionPageSize
      (fun j => youngRows backend (pulls.rows j) (pulls.since j)) pulls.page
      (fun j => (pulls.cursor j).map cursorKey) pulls.moves first last := by
  have hpage : ∀ j, pull backend (pulls.rows j) (pulls.since j) (pulls.cursor j) =
      .ok (pulls.page j) := by
    intro j
    obtain ⟨page, hpull, -⟩ := hok j
    rw [Pulls.page, hpull]
  have hstep : ∀ j, pulls.cursor (j + 1) =
      if pulls.moves j then movedCursor (pulls.page j) else pulls.cursor j := by
    intro j
    rw [pulls.step, afterPull, hpage]
    rfl
  refine ⟨?_, ?_, ?_, ?_, ?_⟩
  · intro j
    obtain ⟨page, hpull, hspec⟩ := hok j
    rw [hpage j] at hpull
    rw [Except.ok.inj hpull]
    exact hspec
  · show (pulls.cursor first).map cursorKey = none
    rw [h.begins]
    rfl
  · intro j _ _ hidle
    show (pulls.cursor (j + 1)).map cursorKey = (pulls.cursor j).map cursorKey
    rw [hstep, hidle, if_neg (by decide)]
  · intro j hj hlt hmoves
    have hnext := h.between (j + 1) (by omega) (by omega)
    rw [hstep, hmoves, if_pos rfl, movedCursor] at hnext
    show ∃ r, (pulls.page j).getLast? = some r ∧ (pulls.cursor (j + 1)).map cursorKey = some (key r)
    rw [hstep, hmoves, if_pos rfl, movedCursor]
    split at hnext
    next => exact absurd rfl hnext
    next hfull =>
      rw [if_neg hfull]
      cases hlast : (pulls.page j).getLast? with
      | none =>
        rw [hlast] at hnext
        exact absurd rfl hnext
      | some r =>
        refine ⟨r, rfl, ?_⟩
        rw [Option.map_some, Option.map_some, hkey]
  · have hmoves : pulls.moves last = true := h.worked (pulls.page last) (hpage last)
    have hends := h.ends
    rw [hstep, hmoves, if_pos rfl, movedCursor] at hends
    refine ⟨hmoves, ?_⟩
    split at hends
    next hshort => exact hshort
    next hfull =>
      rw [Option.map_eq_none_iff, List.getLast?_eq_none_iff] at hends
      rw [hends, fastPromotionPageSize, List.length_nil]
      decide

theorem Pulls.complete_of_pages (pulls : Pulls A backend)
    (hkey : ∀ c, cursorKey (Cursor.of c) = key c)
    (hok : ∀ j, ∃ page, pull backend (pulls.rows j) (pulls.since j) (pulls.cursor j) = .ok page ∧
      Keyset.IsPage key fastPromotionPageSize (youngRows backend (pulls.rows j) (pulls.since j))
        ((pulls.cursor j).map cursorKey) page) : pulls.Complete := by
  refine ⟨fun j => ?_, ?_⟩
  · obtain ⟨page, hpull, -⟩ := hok j
    exact ⟨page, hpull⟩
  · intro first last h c hc
    have hsweep := pulls.sweep hkey hok h
    obtain ⟨j, ⟨hj, hjl, hmoves, hmem⟩, honly⟩ := hsweep.exactly_once h.le
      fun j hj hjl => mem_youngRows.mpr (hc j hj hjl)
    have hreturned : pulls.returned j = pulls.page j := by
      rw [Pulls.returned, Pulls.page]
      rw [Pulls.moves, Pulls.page] at hmoves
      obtain ⟨page, hpull, -⟩ := hok j
      rw [hpull] at hmoves ⊢
      exact if_pos hmoves
    refine ⟨j, ⟨hj, hjl, ?_, ?_⟩, ?_⟩
    · rw [hreturned]
      exact hmem
    · rw [hreturned]
      exact (hsweep.page j).nodup
    · intro i hi hil hri
      obtain ⟨hmi, hmem'⟩ := pulls.mem_returned.mp hri
      exact honly i hi hil hmi hmem'

end Sweeps

theorem Pulls.complete_postgres (pulls : Pulls A .postgres)
    (h : ∀ j c, pulls.cursor j = some c → c.lastNonce.toNat < 2 ^ 63) : pulls.Complete := by
  have hkey : ∀ c : Candidate A, (Cursor.of c).postgresKey = postgresKey c := fun _ => rfl
  exact pulls.complete_of_pages hkey fun j => pullPostgres_spec (pulls.unique j) (h j)

theorem Pulls.complete_filesystem (pulls : Pulls A .filesystem) : pulls.Complete := by
  have hkey : ∀ c : Candidate A, (Cursor.of c).filesystemKey = filesystemKey c := fun _ => rfl
  exact pulls.complete_of_pages hkey fun j => ⟨_, rfl, pullFilesystem_spec (pulls.unique j)⟩

/-- A cursor whose nonce does not convert is a pull that fails. -/
theorem Pulls.cursor_of_complete (pulls : Pulls A .postgres) (h : pulls.Complete) {j : Nat}
    {c : Cursor A} (hc : pulls.cursor j = some c) : c.lastNonce.toNat < 2 ^ 63 := by
  by_contra hwide
  obtain ⟨page, hpage⟩ := h.1 j
  rw [hc, pull, pullPostgres] at hpage
  simp only [if_pos (Nat.le_of_not_lt hwide)] at hpage
  cases hpage

/-- The pulls are complete exactly where no cursor of a Postgres pull has a nonce from
    `2 ^ 63` on. -/
theorem sweeps_iff (backend : Backend) (pulls : Pulls A backend) :
    pulls.Complete ↔
      (backend = .postgres → ∀ j c, pulls.cursor j = some c → c.lastNonce.toNat < 2 ^ 63) := by
  cases backend with
  | postgres =>
    refine ⟨?_, fun h => pulls.complete_postgres (h rfl)⟩
    intro h _ j c hc
    exact pulls.cursor_of_complete h hc
  | filesystem =>
    refine ⟨?_, fun _ => pulls.complete_filesystem⟩
    intro _ hbackend
    cases hbackend

/-! ## A page that ends with a wide nonce -/

/-- A full page: the candidates of ten accounts, ten each, at nonces from `2 ^ 63` on. -/
def wideRows : List (Candidate String) :=
  (List.range 100).map fun i =>
    ⟨String.ofList ['a', Nat.digitChar (i / 10)], BitVec.ofNat 64 (2 ^ 63 + i), 1000⟩

theorem toNat_wide {i : Nat} (h : i < 100) : (BitVec.ofNat 64 (2 ^ 63 + i)).toNat = 2 ^ 63 + i := by
  rw [BitVec.toNat_ofNat]
  omega

theorem wide_of_mem {c : Candidate String} (h : c ∈ wideRows) : 2 ^ 63 ≤ c.nonce.toNat := by
  obtain ⟨i, hi, rfl⟩ := List.mem_map.mp h
  rw [toNat_wide (List.mem_range.mp hi)]
  omega

theorem wideRows_unique :
    wideRows.Pairwise fun a b => a.accountId = b.accountId → a.nonce ≠ b.nonce := by
  rw [wideRows, List.pairwise_map]
  refine List.nodup_range.imp_of_mem ?_
  intro i j hi hj hne _ heq
  have htoNat := congrArg BitVec.toNat heq
  rw [toNat_wide (List.mem_range.mp hi), toNat_wide (List.mem_range.mp hj)] at htoNat
  omega

/-- The same rows at every pull. -/
def widePulls : Pulls String .postgres where
  rows _ := wideRows
  since _ := 0
  admitted _ := true
  cursor := Nat.rec none fun _ cursor => afterPull .postgres wideRows 0 true cursor
  unique _ := wideRows_unique
  fresh := rfl
  step _ := rfl

theorem youngRows_wide : youngRows .postgres wideRows 0 = wideRows := by
  refine List.filter_eq_self.mpr ?_
  intro c hc
  obtain ⟨i, -, rfl⟩ := List.mem_map.mp hc
  rfl

/-- Their first page, all of them. -/
def widePage : List (Candidate String) :=
  (wideRows.mergeSort fun a b => decide (postgresKey a ≤ postgresKey b)).take fastPromotionPageSize

theorem pull_wide : pull .postgres wideRows 0 none = .ok widePage := by
  show Except.ok (((youngRows .postgres wideRows 0).mergeSort fun a b =>
    decide (postgresKey a ≤ postgresKey b)).take fastPromotionPageSize) = _
  rw [youngRows_wide]
  rfl

theorem length_widePage : widePage.length = fastPromotionPageSize := by
  rw [widePage, List.length_take, List.length_mergeSort, wideRows, List.length_map,
    List.length_range]
  rfl

/-- The first page is full, and the cursor it leaves fails every pull after it. -/
theorem wide_nonce_fails : ¬ widePulls.Complete := by
  intro h
  obtain ⟨r, hr⟩ : ∃ r, widePage.getLast? = some r := by
    rw [← Option.isSome_iff_exists, List.getLast?_isSome]
    intro hnil
    have hlen := length_widePage
    rw [hnil] at hlen
    cases hlen
  have hfull : ¬ widePage.length < fastPromotionPageSize := by
    rw [length_widePage]
    exact Nat.lt_irrefl _
  have hcursor : widePulls.cursor 1 = some (Cursor.of r) := by
    show afterPull .postgres wideRows 0 true none = _
    rw [afterPull, pull_wide]
    simp only [Bool.or_true, if_true, movedCursor, if_neg hfull, hr, Option.map_some]
  have hmem : r ∈ wideRows := List.mem_mergeSort.mp (List.mem_of_mem_take (List.mem_of_getLast? hr))
  have hlt := widePulls.cursor_of_complete h hcursor
  exact absurd hlt (Nat.not_lt.mpr (wide_of_mem hmem))

end Guardian.Recent
