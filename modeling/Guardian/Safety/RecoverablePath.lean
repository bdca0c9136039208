import Mathlib.Data.List.ProdSigma
import Guardian.Jobs.Reconciliation

/- The search for a path of recoverable rows (`select_recoverable_path`). The
   rows form an arbitrary graph over commitments, with several rows for a base
   and possibly cycles, and a path may take each nonce once. The search is
   sound, and complete although it walks only the first of the rows that share a
   nonce and a post commitment at a hop: the others lead on in the same way.

   Its cost is counted on a search that also lists the hops it tries
   (`traceWalk`). A hop is known by its depth and its post commitment where every
   post commitment has one base, and is tried once where the copies of it that the
   search gets to have one nonce; hence the bound. Which copies it gets to depends
   on the chain's head: the rows after one that leads there are not looked at. -/
namespace Guardian.Recoverable

/-! ## Paths -/

/-- A path from the stored commitment to the chain's head. -/
structure Recovers (stored onChain : Commitment) (live path : List Recoverable) : Prop where
  rows : ∀ row ∈ path, row ∈ live
  distinct : (path.map (·.delta.nonce)).Nodup
  chained : Chained stored (path.map (fun row => .of row.delta))
  ends : path.getLast?.bind (·.delta.newCommitment) = some onChain

section Search
variable {visit : Recoverable → Commitment → Option (List Recoverable)}
  {tried : List (Nonce × Commitment)} {rows result : List Recoverable}
  {onChain running : Commitment} {live path : List Recoverable}

/-- A search that succeeds does so at one of the rows. -/
theorem tryRows_eq_some (h : tryRows visit tried rows = some result) :
    ∃ row ∈ rows, ∃ next, row.delta.newCommitment = some next ∧ visit row next = some result := by
  induction rows generalizing tried with
  | nil => cases h
  | cons row rows ih =>
    have hlater : ∀ {tried}, tryRows visit tried rows = some result → ∃ row' ∈ row :: rows,
        ∃ next, row'.delta.newCommitment = some next ∧ visit row' next = some result := by
      intro tried h
      obtain ⟨row', hmem, hrow'⟩ := ih h
      exact ⟨row', .tail _ hmem, hrow'⟩
    unfold tryRows at h
    split at h
    · exact hlater h
    · next next hnext =>
      split at h
      · exact hlater h
      · rcases Option.or_eq_some_iff.mp h with hvisit | ⟨_, hrest⟩
        · exact ⟨row, List.mem_cons_self, next, hnext, hvisit⟩
        · exact hlater hrest

/-- A search that fails has visited every row, or a row of its nonce and post
commitment. -/
theorem tryRows_eq_none (h : tryRows visit tried rows = none) {row : Recoverable}
    (hrow : row ∈ rows) {next : Commitment} (hnext : row.delta.newCommitment = some next) :
    (row.delta.nonce, next) ∈ tried ∨ ∃ row' ∈ rows, row'.delta.nonce = row.delta.nonce ∧
      row'.delta.newCommitment = some next ∧ visit row' next = none := by
  induction rows generalizing tried with
  | nil => cases hrow
  | cons first rows ih =>
    have hlater : ∀ {tried}, tryRows visit tried rows = none → row ∈ rows →
        (row.delta.nonce, next) ∈ tried ∨ ∃ row' ∈ first :: rows,
          row'.delta.nonce = row.delta.nonce ∧ row'.delta.newCommitment = some next ∧
          visit row' next = none := by
      intro tried h hmem
      obtain hold | ⟨row', hmem', hrow'⟩ := ih h hmem
      · exact .inl hold
      · exact .inr ⟨row', .tail _ hmem', hrow'⟩
    unfold tryRows at h
    split at h
    · next hnone =>
      rcases List.mem_cons.mp hrow with rfl | hmem
      · rw [hnext] at hnone
        cases hnone
      · exact hlater h hmem
    · next next' hnext' =>
      split at h
      · next hin =>
        rcases List.mem_cons.mp hrow with rfl | hmem
        · rw [hnext] at hnext'
          cases hnext'
          exact .inl hin
        · exact hlater h hmem
      · obtain ⟨hvisit, hrest⟩ := Option.or_eq_none_iff.mp h
        rcases List.mem_cons.mp hrow with rfl | hmem
        · rw [hnext] at hnext'
          cases hnext'
          exact .inr ⟨row, List.mem_cons_self, rfl, hnext, hvisit⟩
        · obtain hold | hfound := hlater hrest hmem
          · -- tried just now, or before
            rcases List.mem_cons.mp hold with heq | hold
            · obtain ⟨hnonce, rfl⟩ := Prod.mk.inj heq
              exact .inr ⟨first, List.mem_cons_self, hnonce.symm, hnext', hvisit⟩
            · exact .inl hold
          · exact .inr hfound

theorem mem_chaining {row : Recoverable} : row ∈ chaining onChain running live path ↔
    row ∈ live ∧ row.delta.prevCommitment = running ∧ row.delta.newCommitment ≠ none ∧
      row.delta.nonce ∉ path.map (·.delta.nonce) := by
  have hcond : (row.delta.prevCommitment == running && row.delta.newCommitment.isSome &&
      path.all (·.delta.nonce != row.delta.nonce)) = true ↔
      row.delta.prevCommitment = running ∧ row.delta.newCommitment ≠ none ∧
        row.delta.nonce ∉ path.map (·.delta.nonce) := by
    simp [Option.isSome_iff_ne_none, and_assoc]
  rw [chaining, List.mem_insertionSort, List.mem_filter, hcond]

theorem nodup_snoc {row : Recoverable} (hpath : (path.map (·.delta.nonce)).Nodup)
    (hrow : row ∈ chaining onChain running live path) :
    ((path ++ [row]).map (·.delta.nonce)).Nodup := by
  obtain ⟨-, -, -, hfresh⟩ := mem_chaining.mp hrow
  rw [List.map_append, List.nodup_append]
  refine ⟨hpath, List.nodup_singleton _, fun a ha b hb heq => hfresh ?_⟩
  rw [heq, List.mem_singleton.mp hb] at ha
  exact ha

/-- What the search adds to a path takes it to the chain's head. -/
theorem walk_sound {depth : Nat} (h : walk onChain live depth running path = some result)
    (hpath : (path.map (·.delta.nonce)).Nodup) :
    ∃ rest, result = path ++ rest ∧ Recovers running onChain live rest ∧
      (result.map (·.delta.nonce)).Nodup := by
  induction depth generalizing running path with
  | zero => cases h
  | succ depth ih =>
    obtain ⟨row, hrow, next, hnext, hvisit⟩ := tryRows_eq_some h
    obtain ⟨hlive, hprev, -, -⟩ := mem_chaining.mp hrow
    have hpath' := nodup_snoc hpath hrow
    split at hvisit
    · next hend =>
      cases hvisit
      refine ⟨[row], rfl, ⟨?_, List.nodup_singleton _, ⟨hprev, next, hnext, trivial⟩, ?_⟩, hpath'⟩
      · exact fun row' hmem => List.mem_singleton.mp hmem ▸ hlive
      · exact hend ▸ hnext
    · obtain ⟨rest, hresult, hrest, hdistinct⟩ := ih hvisit hpath'
      have hsplit : result = path ++ row :: rest := by rw [hresult, List.append_assoc]; rfl
      refine ⟨row :: rest, hsplit, ⟨?_, ?_, ⟨hprev, next, hnext, hrest.chained⟩, ?_⟩, hdistinct⟩
      · exact List.forall_mem_cons.mpr ⟨hlive, hrest.rows⟩
      · rw [hsplit, List.map_append] at hdistinct
        exact (List.nodup_append.mp hdistinct).2.1
      · cases rest with
        | nil => exact absurd hrest.ends (by simp)
        | cons row' rest => exact hrest.ends

/-- The search fails only where nothing takes the path to the chain's head. -/
theorem walk_complete {depth : Nat} {rest : List Recoverable}
    (hrest : Recovers running onChain live rest)
    (hdistinct : ((path ++ rest).map (·.delta.nonce)).Nodup) (hlen : rest.length ≤ depth) :
    walk onChain live depth running path ≠ none := by
  induction depth generalizing running path rest with
  | zero =>
    obtain rfl := List.eq_nil_of_length_eq_zero (Nat.le_zero.mp hlen)
    exact absurd hrest.ends (by simp)
  | succ depth ih =>
    cases rest with
    | nil => exact absurd hrest.ends (by simp)
    | cons row rest =>
      obtain ⟨hprev, next, hnext, hchained⟩ := hrest.chained
      have hnext : row.delta.newCommitment = some next := hnext
      intro hnone
      have hrow : row ∈ chaining onChain running live path := by
        refine mem_chaining.mpr ⟨hrest.rows row List.mem_cons_self, hprev, by simp [hnext], ?_⟩
        intro hmem
        rw [List.map_append, List.nodup_append] at hdistinct
        exact hdistinct.2.2 _ hmem _ List.mem_cons_self rfl
      obtain hold | ⟨row', _, hnonce, _, hvisit⟩ := tryRows_eq_none hnone hrow hnext
      · cases hold
      -- the row that was visited takes the path on as `row` does
      split at hvisit
      · cases hvisit
      next hend =>
      have hrest' : Recovers next onChain live rest := by
        refine ⟨fun r hr => hrest.rows r (.tail _ hr), (List.nodup_cons.mp hrest.distinct).2,
          hchained, ?_⟩
        cases rest with
        | nil => exact absurd (Option.some.inj (hnext.symm.trans hrest.ends)) hend
        | cons row'' rest => exact hrest.ends
      refine ih hrest' ?_ (Nat.le_of_succ_le_succ hlen) hvisit
      simpa [hnonce] using hdistinct

end Search

/-- A path takes rows of the list, each nonce once. -/
structure Path (live path : List Recoverable) : Prop where
  rows : ∀ row ∈ path, row ∈ live
  distinct : (path.map (·.delta.nonce)).Nodup

/-- No path is longer than the list. -/
theorem Path.length_le {live path : List Recoverable} (h : Path live path) :
    path.length ≤ live.length :=
  (List.subperm_of_subset (List.Nodup.of_map _ h.distinct) h.rows).length_le

theorem Recovers.toPath {stored onChain : Commitment} {live path : List Recoverable}
    (h : Recovers stored onChain live path) : Path live path :=
  ⟨h.rows, h.distinct⟩

theorem selectRecoverablePath_recovers {stored onChain : Commitment} {live : List Recoverable}
    (h : selectRecoverablePath stored onChain live ≠ []) :
    Recovers stored onChain live (selectRecoverablePath stored onChain live) := by
  unfold selectRecoverablePath at h ⊢
  cases hwalk : walk onChain live live.length stored [] with
  | none =>
    rw [hwalk] at h
    exact absurd rfl h
  | some result =>
    obtain ⟨rest, rfl, hrest, -⟩ := walk_sound hwalk List.nodup_nil
    exact hrest

/-- For every list of rows, a selected path leads from the stored commitment to
the chain's head over rows of the list with distinct nonces, and one is selected
whenever the list holds one. -/
theorem select_recoverable_path_finds (stored onChain : Commitment) (live : List Recoverable) :
    (selectRecoverablePath stored onChain live ≠ [] →
      Recovers stored onChain live (selectRecoverablePath stored onChain live)) ∧
    ((∃ path, Recovers stored onChain live path) →
      selectRecoverablePath stored onChain live ≠ []) := by
  refine ⟨selectRecoverablePath_recovers, fun ⟨path, hpath⟩ => ?_⟩
  have hfound : walk onChain live live.length stored [] ≠ none :=
    walk_complete hpath (by simpa using hpath.distinct) hpath.toPath.length_le
  obtain ⟨result, hresult⟩ := Option.ne_none_iff_exists'.mp hfound
  obtain ⟨rest, hsplit, hrest, -⟩ := walk_sound hresult List.nodup_nil
  unfold selectRecoverablePath
  rw [hresult, hsplit]
  intro hnil
  have hempty : rest = [] := hnil
  rw [hempty] at hrest
  exact absurd hrest.ends (by simp)

/-! ## Hops -/

/-- A hop the search tried: how many rows the path had, and the row's post
commitment. -/
abbrev Hop := Nat × Commitment

local instance lawfulBEqHop : LawfulBEq (Nonce × Commitment) := inferInstance

/-- `tryRows`, with the hops it and its visits try. -/
def traceRows (depth : Nat)
    (visit : Recoverable → Commitment → Option (List Recoverable) × List Hop) :
    List (Nonce × Commitment) → List Recoverable → Option (List Recoverable) × List Hop
  | _, [] => (none, [])
  | tried, row :: rows =>
    match row.delta.newCommitment with
    | none => traceRows depth visit tried rows
    | some next =>
      if (row.delta.nonce, next) ∈ tried then traceRows depth visit tried rows
      else
        match visit row next with
        | (some path, hops) => (some path, (depth, next) :: hops)
        | (none, hops) =>
          let (found, later) := traceRows depth visit ((row.delta.nonce, next) :: tried) rows
          (found, (depth, next) :: hops ++ later)

/-- `walk`, with the hops it tries. -/
def traceWalk (onChain : Commitment) (live : List Recoverable) :
    Nat → Commitment → List Recoverable → Option (List Recoverable) × List Hop
  | 0, _, _ => (none, [])
  | depth + 1, running, path =>
    traceRows path.length (fun row next =>
      if next = onChain then (some (path ++ [row]), [])
      else traceWalk onChain live depth next (path ++ [row]))
      [] (chaining onChain running live path)

/-- The hops `select_recoverable_path` tries. -/
def hopsTried (stored onChain : Commitment) (live : List Recoverable) : List Hop :=
  (traceWalk onChain live live.length stored []).2

theorem traceRows_fst {depth : Nat}
    {traced : Recoverable → Commitment → Option (List Recoverable) × List Hop}
    {visit : Recoverable → Commitment → Option (List Recoverable)}
    (hvisit : ∀ row next, (traced row next).1 = visit row next)
    (tried : List (Nonce × Commitment)) (rows : List Recoverable) :
    (traceRows depth traced tried rows).1 = tryRows visit tried rows := by
  induction rows generalizing tried with
  | nil => rfl
  | cons row rows ih =>
    cases hnew : row.delta.newCommitment with
    | none =>
      simp only [traceRows, tryRows, hnew]
      exact ih tried
    | some next =>
      simp only [traceRows, tryRows, hnew]
      by_cases hin : (row.delta.nonce, next) ∈ tried
      · rw [if_pos hin, if_pos hin]
        exact ih tried
      · rw [if_neg hin, if_neg hin, ← hvisit]
        split
        · next heq => rw [heq]; rfl
        · next heq => rw [heq]; exact ih _

/-- The traced search is the search. -/
theorem traceWalk_fst (onChain : Commitment) (live : List Recoverable) (depth : Nat)
    (running : Commitment) (path : List Recoverable) :
    (traceWalk onChain live depth running path).1 = walk onChain live depth running path := by
  induction depth generalizing running path with
  | zero => rfl
  | succ depth ih =>
    unfold traceWalk walk
    refine traceRows_fst (fun row next => ?_) _ _
    split
    · rfl
    · exact ih next _

/-- A row of the list takes `base` to `post`. -/
def Edge (live : List Recoverable) (base post : Commitment) : Prop :=
  ∃ row ∈ live, row.delta.prevCommitment = base ∧ row.delta.newCommitment = some post

/-- `n` hops over rows of the list take `c` to `post`. -/
inductive Hops (live : List Recoverable) (c : Commitment) : Nat → Commitment → Prop where
  | zero : Hops live c 0 c
  | succ {n : Nat} {base post : Commitment} :
      Hops live c n base → Edge live base post → Hops live c (n + 1) post

/-- Every post commitment has a single base. -/
def SingleBase (live : List Recoverable) : Prop :=
  ∀ a ∈ live, ∀ b ∈ live, a.delta.newCommitment ≠ none →
    a.delta.newCommitment = b.delta.newCommitment →
    a.delta.prevCommitment = b.delta.prevCommitment

instance (live : List Recoverable) : Decidable (SingleBase live) :=
  inferInstanceAs (Decidable (∀ a ∈ live, ∀ b ∈ live, a.delta.newCommitment ≠ none →
    a.delta.newCommitment = b.delta.newCommitment →
    a.delta.prevCommitment = b.delta.prevCommitment))

/-- One row repeats the nonce and the post commitment of another. -/
def Copy (a b : Recoverable) : Prop :=
  a.delta.nonce = b.delta.nonce ∧ a.delta.newCommitment = b.delta.newCommitment

/-- Rows with nonces not yet taken do not lead from a row's post commitment to
the chain's head. -/
def DeadEnd (onChain : Commitment) (live path : List Recoverable) (row : Recoverable) : Prop :=
  ∀ next, row.delta.newCommitment = some next → next ≠ onChain ∧
    ∀ rest, Recovers next onChain live rest → ¬((path ++ row :: rest).map (·.delta.nonce)).Nodup

/-- A row is tried where all rows before it are dead ends, and none of them is a
copy of it. -/
def Tried (Dead : Recoverable → Prop) (rows : List Recoverable) (row : Recoverable) : Prop :=
  ∃ before after, rows = before ++ row :: after ∧ ∀ r ∈ before, Dead r ∧ ¬Copy r row

/-- The rows tried where `path` has led to `running`. -/
def TriedAt (onChain : Commitment) (live : List Recoverable) (running : Commitment)
    (path : List Recoverable) (row : Recoverable) : Prop :=
  Tried (DeadEnd onChain live path) (chaining onChain running live path) row

/-- The places that rows to be tried lead to. -/
inductive Comes (stored onChain : Commitment) (live : List Recoverable) :
    Commitment → List Recoverable → Prop where
  | start : Comes stored onChain live stored []
  | hop {running next : Commitment} {path : List Recoverable} {row : Recoverable} :
      Comes stored onChain live running path → TriedAt onChain live running path row →
      row.delta.newCommitment = some next → next ≠ onChain →
      Comes stored onChain live next (path ++ [row])

/-- Wherever rows to be tried lead, those of them with one post commitment share a
nonce. -/
def CopiesShareNonce (stored onChain : Commitment) (live : List Recoverable) : Prop :=
  ∀ running path, Comes stored onChain live running path →
    ∀ a b, TriedAt onChain live running path a → TriedAt onChain live running path b →
      a.delta.newCommitment = b.delta.newCommitment → a.delta.nonce = b.delta.nonce

section Bound
variable {stored running : Commitment} {live path : List Recoverable}

/-- The first hop first. -/
theorem Hops.cons {base post c : Commitment} {n : Nat} (hedge : Edge live base post)
    (h : Hops live post n c) : Hops live base (n + 1) c := by
  induction h with
  | zero => exact .succ .zero hedge
  | succ _ hlast ih => exact .succ ih hlast

/-- Going back from a post commitment, there is one way. -/
theorem Hops.unique (hsingle : SingleBase live) {c c' post : Commitment} {n : Nat}
    (h : Hops live c n post) (h' : Hops live c' n post) : c = c' := by
  induction n generalizing post with
  | zero =>
    cases h
    cases h'
    rfl
  | succ n ih =>
    obtain _ | ⟨hn, a, ha, rfl, hpost⟩ := h
    obtain _ | ⟨hn', b, hb, rfl, hpost'⟩ := h'
    have hbase := hsingle a ha b hb (by simp [hpost]) (hpost.trans hpost'.symm)
    exact ih hn (hbase ▸ hn')

theorem Tried.mem {Dead : Recoverable → Prop} {rows : List Recoverable} {row : Recoverable}
    (h : Tried Dead rows row) : row ∈ rows := by
  obtain ⟨before, after, rfl, -⟩ := h
  exact List.mem_append_right _ List.mem_cons_self

/-- A dead end is known by its nonce and its post commitment. -/
theorem DeadEnd.copy {onChain : Commitment} {a b : Recoverable}
    (h : DeadEnd onChain live path a) (hcopy : Copy a b) : DeadEnd onChain live path b := by
  intro next hnext
  obtain ⟨hend, hrest⟩ := h next (hcopy.2.trans hnext)
  refine ⟨hend, fun rest hrec hnodup => hrest rest hrec ?_⟩
  simpa [hcopy.1] using hnodup

/-- A hop of a search over `rows`: it lies `m` hops behind the post commitment of a
row that is tried and no copy of an earlier one. -/
def Behind (live : List Recoverable) (depth fuel : Nat) (Dead : Recoverable → Prop)
    (rows earlier : List Recoverable) (hop : Hop) : Prop :=
  ∃ row, Tried Dead rows row ∧ (∀ r ∈ earlier, ¬Copy r row) ∧
    ∃ next, row.delta.newCommitment = some next ∧
    ∃ m < fuel, hop.1 = depth + m ∧ Hops live next m hop.2

theorem Behind.mono {depth fuel : Nat} {Dead : Recoverable → Prop}
    {rows earlier : List Recoverable} {row : Recoverable} {hop : Hop}
    (h : Behind live depth fuel Dead rows (earlier ++ [row]) hop) :
    Behind live depth fuel Dead rows earlier hop := by
  obtain ⟨row', htried, hnew, hnext⟩ := h
  exact ⟨row', htried, fun r hr => hnew r (List.mem_append_left _ hr), hnext⟩

/-- `tried` holds the nonces and the post commitments of the rows that the search
is done with. -/
def Holds (tried : List (Nonce × Commitment)) (earlier : List Recoverable) : Prop :=
  ∀ row next, row.delta.newCommitment = some next →
    ((row.delta.nonce, next) ∈ tried ↔ ∃ r ∈ earlier, Copy r row)

section Holds
variable {tried : List (Nonce × Commitment)} {earlier : List Recoverable} {row : Recoverable}
  {next : Commitment}

theorem Holds.skip (h : Holds tried earlier) (hnew : row.delta.newCommitment = some next)
    (hin : (row.delta.nonce, next) ∈ tried) : Holds tried (earlier ++ [row]) := by
  intro row' next' hnew'
  obtain ⟨r, hr, hcopy⟩ := (h row next hnew).mp hin
  rw [h row' next' hnew']
  constructor
  · rintro ⟨r', hr', hcopy'⟩
    exact ⟨r', List.mem_append_left _ hr', hcopy'⟩
  · rintro ⟨r', hr', hcopy'⟩
    rcases List.mem_append.mp hr' with hr' | hr'
    · exact ⟨r', hr', hcopy'⟩
    · obtain rfl := List.mem_singleton.mp hr'
      exact ⟨r, hr, hcopy.1.trans hcopy'.1, hcopy.2.trans hcopy'.2⟩

theorem Holds.visit (h : Holds tried earlier) (hnew : row.delta.newCommitment = some next) :
    Holds ((row.delta.nonce, next) :: tried) (earlier ++ [row]) := by
  intro row' next' hnew'
  rw [List.mem_cons, h row' next' hnew', Prod.mk.injEq]
  constructor
  · rintro (⟨hnonce, rfl⟩ | ⟨r, hr, hcopy⟩)
    · exact ⟨row, List.mem_append_right _ List.mem_cons_self, hnonce.symm, hnew.trans hnew'.symm⟩
    · exact ⟨r, List.mem_append_left _ hr, hcopy⟩
  · rintro ⟨r, hr, hcopy⟩
    rcases List.mem_append.mp hr with hr | hr
    · exact .inr ⟨r, hr, hcopy⟩
    · obtain rfl := List.mem_singleton.mp hr
      exact .inl ⟨hcopy.1.symm, Option.some.inj (hnew'.symm.trans (hcopy.2.symm.trans hnew))⟩

end Holds

/-- No hop of a search from rows of one base is tried twice. -/
theorem traceRows_hops (depth : Nat) {fuel : Nat}
    (visit : Recoverable → Commitment → Option (List Recoverable) × List Hop)
    (hsingle : SingleBase live) {Dead : Recoverable → Prop} {all : List Recoverable}
    (hposts : ∀ row ∈ all, row.delta.newCommitment ≠ none)
    (hdead : ∀ row ∈ all, ∀ next, row.delta.newCommitment = some next →
      (visit row next).1 = none → Dead row)
    (hcopy : ∀ a b, Copy a b → Dead a → Dead b)
    (hshare : ∀ a b, Tried Dead all a → Tried Dead all b →
      a.delta.newCommitment = b.delta.newCommitment → a.delta.nonce = b.delta.nonce)
    (hvisit : ∀ row, Tried Dead all row → ∀ next, row.delta.newCommitment = some next →
      (visit row next).2.Nodup ∧ ∀ hop ∈ (visit row next).2,
        ∃ m < fuel, hop.1 = depth + 1 + m ∧ Hops live next (m + 1) hop.2)
    {earlier rows : List Recoverable} (hall : all = earlier ++ rows)
    (hearlier : ∀ r ∈ earlier, Dead r) (tried : List (Nonce × Commitment))
    (htried : Holds tried earlier) :
    (traceRows depth visit tried rows).2.Nodup ∧
    ∀ hop ∈ (traceRows depth visit tried rows).2,
      Behind live depth (fuel + 1) Dead all earlier hop := by
  induction rows generalizing tried earlier with
  | nil => exact ⟨List.nodup_nil, fun hop hmem => by cases hmem⟩
  | cons row rows ih =>
    have hrow : row ∈ all := hall ▸ List.mem_append_right _ List.mem_cons_self
    have hall' : all = (earlier ++ [row]) ++ rows := by rw [hall, List.append_assoc]; rfl
    have hearlier' : Dead row → ∀ r ∈ earlier ++ [row], Dead r := by
      intro hrow r hr
      rcases List.mem_append.mp hr with hr | hr
      · exact hearlier r hr
      · exact List.mem_singleton.mp hr ▸ hrow
    obtain ⟨next, hnew⟩ := Option.ne_none_iff_exists'.mp (hposts row hrow)
    simp only [traceRows, hnew]
    by_cases hin : (row.delta.nonce, next) ∈ tried
    · -- a copy of a row that led nowhere
      rw [if_pos hin]
      obtain ⟨r, hr, hsame⟩ := (htried row next hnew).mp hin
      obtain ⟨hnodup, hhops⟩ := ih hall' (hearlier' (hcopy r row hsame (hearlier r hr))) tried
        (htried.skip hnew hin)
      exact ⟨hnodup, fun hop hmem => (hhops hop hmem).mono⟩
    rw [if_neg hin]
    have hfresh : ∀ r ∈ earlier, ¬Copy r row := fun r hr hsame =>
      hin ((htried row next hnew).mpr ⟨r, hr, hsame⟩)
    have hown : Tried Dead all row := ⟨earlier, rows, hall, fun r hr => ⟨hearlier r hr, hfresh r hr⟩⟩
    obtain ⟨hnodup, hhops⟩ := hvisit row hown next hnew
    -- the hop to `next` and those behind it
    have hfirst : ((depth, next) :: (visit row next).2).Nodup := by
      refine List.nodup_cons.mpr ⟨fun hmem => ?_, hnodup⟩
      obtain ⟨m, -, heq, -⟩ := hhops _ hmem
      have hdepth : depth = depth + 1 + m := heq
      omega
    have hbehind : ∀ hop ∈ (depth, next) :: (visit row next).2,
        ∃ m < fuel + 1, hop.1 = depth + m ∧ Hops live next m hop.2 := by
      intro hop hmem
      rcases List.mem_cons.mp hmem with rfl | hmem
      · exact ⟨0, Nat.succ_pos _, rfl, .zero⟩
      · obtain ⟨m, hm, heq, hto⟩ := hhops hop hmem
        exact ⟨m + 1, Nat.succ_lt_succ hm, by omega, hto⟩
    split
    · next hops heq =>
      rw [heq] at hfirst hbehind
      exact ⟨hfirst, fun hop hmem => ⟨row, hown, hfresh, next, hnew, hbehind hop hmem⟩⟩
    · next hops heq =>
      have hnone : (visit row next).1 = none := by rw [heq]
      rw [heq] at hfirst hbehind
      obtain ⟨hnodup', hlater⟩ := ih hall' (hearlier' (hdead row hrow next hnew hnone))
        ((row.delta.nonce, next) :: tried) (htried.visit hnew)
      refine ⟨?_, fun hop hmem => ?_⟩
      · refine List.nodup_append.mpr ⟨hfirst, hnodup', fun hop hmem hop' hmem' heq => ?_⟩
        subst heq
        -- going back from a common hop leads to `next` on both sides
        obtain ⟨m, -, hm, hto⟩ := hbehind hop hmem
        obtain ⟨row', htried', hnot, next', hnew', m', -, hm', hto'⟩ := hlater hop hmem'
        obtain rfl : m = m' := by omega
        obtain rfl := hto.unique hsingle hto'
        have hpost := hnew.trans hnew'.symm
        exact hnot row (List.mem_append_right _ List.mem_cons_self)
          ⟨hshare row row' hown htried' hpost, hpost⟩
      · rcases List.mem_append.mp hmem with hmem | hmem
        · exact ⟨row, hown, hfresh, next, hnew, hbehind hop hmem⟩
        · exact (hlater hop hmem).mono

/-- What the search does with a row that extends `path`. -/
def traceVisit (onChain : Commitment) (live : List Recoverable) (depth : Nat)
    (path : List Recoverable) (row : Recoverable) (next : Commitment) :
    Option (List Recoverable) × List Hop :=
  if next = onChain then (some (path ++ [row]), [])
  else traceWalk onChain live depth next (path ++ [row])

theorem traceWalk_succ (onChain : Commitment) (live : List Recoverable) (depth : Nat)
    (running : Commitment) (path : List Recoverable) :
    traceWalk onChain live (depth + 1) running path =
      traceRows path.length (traceVisit onChain live depth path) []
        (chaining onChain running live path) := rfl

theorem Path.snoc {onChain : Commitment} {row : Recoverable} (h : Path live path)
    (hrow : row ∈ chaining onChain running live path) : Path live (path ++ [row]) := by
  refine ⟨fun r hr => ?_, nodup_snoc h.distinct hrow⟩
  rcases List.mem_append.mp hr with hr | hr
  · exact h.rows r hr
  · exact List.mem_singleton.mp hr ▸ (mem_chaining.mp hrow).1

theorem Comes.isPath {onChain : Commitment} (h : Comes stored onChain live running path) :
    Path live path := by
  induction h with
  | start => exact ⟨fun row hrow => absurd hrow List.not_mem_nil, List.nodup_nil⟩
  | hop _ htried _ _ ih => exact ih.snoc htried.mem

/-- The search backs out of a row exactly where it is a dead end. -/
theorem traceVisit_eq_none {onChain : Commitment} {depth : Nat} {row : Recoverable}
    {next : Commitment} (hpath : Path live path)
    (hrow : row ∈ chaining onChain running live path)
    (hdepth : live.length = path.length + 1 + depth)
    (hnew : row.delta.newCommitment = some next) :
    (traceVisit onChain live depth path row next).1 = none ↔ DeadEnd onChain live path row := by
  have hsnoc := hpath.snoc hrow
  have hmap : ∀ rest : List Recoverable, (path ++ [row] ++ rest).map (·.delta.nonce) =
      (path ++ row :: rest).map (·.delta.nonce) := by simp
  unfold traceVisit
  constructor
  · intro hnone next' hnew'
    obtain rfl : next = next' := Option.some.inj (hnew.symm.trans hnew')
    split at hnone
    · cases hnone
    next hend =>
    rw [traceWalk_fst] at hnone
    refine ⟨hend, fun rest hrest hdistinct => ?_⟩
    -- the search has fuel left for any path of distinct nonces
    have hlong : (path ++ [row] ++ rest).length ≤ live.length := by
      refine Path.length_le ⟨fun r hr => ?_, by rw [hmap]; exact hdistinct⟩
      rcases List.mem_append.mp hr with hr | hr
      · exact hsnoc.rows r hr
      · exact hrest.rows r hr
    simp only [List.length_append, List.length_singleton] at hlong
    exact walk_complete hrest (by rw [hmap]; exact hdistinct) (by omega) hnone
  · intro hdead
    obtain ⟨hend, hrest⟩ := hdead next hnew
    rw [if_neg hend, traceWalk_fst]
    by_contra hsome
    obtain ⟨result, hresult⟩ := Option.ne_none_iff_exists'.mp hsome
    obtain ⟨rest, hsplit, hrec, hdistinct⟩ := walk_sound hresult hsnoc.distinct
    rw [hsplit, hmap] at hdistinct
    exact hrest rest hrec hdistinct

/-- No hop of a search is tried twice, and each is as many hops away as it is
deep. -/
theorem traceWalk_hops {onChain : Commitment} (hsingle : SingleBase live)
    (hshare : CopiesShareNonce stored onChain live) {depth : Nat}
    (hcomes : Comes stored onChain live running path) (hdepth : live.length = path.length + depth) :
    (traceWalk onChain live depth running path).2.Nodup ∧
    ∀ hop ∈ (traceWalk onChain live depth running path).2,
      ∃ m < depth, hop.1 = path.length + m ∧ Hops live running (m + 1) hop.2 := by
  induction depth generalizing running path with
  | zero => exact ⟨List.nodup_nil, fun hop hmem => by cases hmem⟩
  | succ depth ih =>
    have hlen : live.length = path.length + 1 + depth := by omega
    have hsnoc : ∀ row : Recoverable, (path ++ [row]).length = path.length + 1 := fun row => by
      rw [List.length_append, List.length_singleton]
    rw [traceWalk_succ]
    obtain ⟨hnodup, hhops⟩ := traceRows_hops path.length (traceVisit onChain live depth path)
      hsingle (fun row hrow => (mem_chaining.mp hrow).2.2.1)
      (fun row hrow next hnew => (traceVisit_eq_none hcomes.isPath hrow hlen hnew).mp)
      (fun a b hcopy hdead => hdead.copy hcopy)
      (hshare running path hcomes)
      (fun row htried next hnew => by
        -- behind a row, the search of the induction hypothesis, one hop deeper
        unfold traceVisit
        split
        · exact ⟨List.nodup_nil, fun hop hmem => by cases hmem⟩
        next hend =>
        obtain ⟨hnodup, hhops⟩ := ih (.hop hcomes htried hnew hend) (by rw [hsnoc, hlen])
        refine ⟨hnodup, fun hop hmem => ?_⟩
        obtain ⟨m, hm, heq, hto⟩ := hhops hop hmem
        exact ⟨m, hm, hsnoc row ▸ heq, hto⟩)
      (List.nil_append _).symm (fun r hr => by cases hr) []
      (fun row next _ => by simp)
    refine ⟨hnodup, fun hop hmem => ?_⟩
    obtain ⟨row, htried, -, next, hnew, m, hm, heq, hto⟩ := hhops hop hmem
    obtain ⟨hlive, hprev, -⟩ := mem_chaining.mp htried.mem
    exact ⟨m, hm, heq, hto.cons ⟨row, hlive, hprev, hnew⟩⟩

/-- The hops of a search over rows that are all dead ends come first, then those of
the next row, if it is no copy of one of them. -/
theorem traceRows_prefix (depth : Nat)
    (visit : Recoverable → Commitment → Option (List Recoverable) × List Hop)
    {before : List Recoverable} (after : List Recoverable) {row : Recoverable} {next : Commitment}
    (hdead : ∀ r ∈ before, ∀ post, r.delta.newCommitment = some post → (visit r post).1 = none)
    (hfresh : ∀ r ∈ before, ¬Copy r row) (hnew : row.delta.newCommitment = some next)
    {tried : List (Nonce × Commitment)} (hin : (row.delta.nonce, next) ∉ tried) :
    (traceRows depth visit tried before).2 ++ (depth, next) :: (visit row next).2 <+:
      (traceRows depth visit tried (before ++ row :: after)).2 := by
  induction before generalizing tried with
  | nil =>
    simp only [traceRows, hnew, if_neg hin, List.nil_append]
    split
    · next heq => rw [heq]
    · next heq =>
      rw [heq]
      exact List.prefix_append _ _
  | cons first before ih =>
    have hrest := fun {tried} => @ih (fun r hr => hdead r (.tail _ hr))
      (fun r hr => hfresh r (.tail _ hr)) tried
    rw [List.cons_append]
    cases hpost : first.delta.newCommitment with
    | none =>
      simp only [traceRows, hpost]
      exact hrest hin
    | some post =>
      simp only [traceRows, hpost]
      by_cases hold : (first.delta.nonce, post) ∈ tried
      · rw [if_pos hold, if_pos hold]
        exact hrest hin
      rw [if_neg hold, if_neg hold]
      have hnone := hdead first List.mem_cons_self post hpost
      -- `row` is no copy of `first`, so it is still to be tried
      have hnot : (row.delta.nonce, next) ∉ (first.delta.nonce, post) :: tried := by
        intro hmem
        rcases List.mem_cons.mp hmem with heq | hmem
        · obtain ⟨hnonce, rfl⟩ := Prod.mk.inj heq
          exact hfresh first List.mem_cons_self ⟨hnonce.symm, hpost.trans hnew.symm⟩
        · exact hin hmem
      split
      · next heq =>
        rw [heq] at hnone
        cases hnone
      · next heq =>
        rw [List.append_assoc]
        exact (List.prefix_append_right_inj _).mpr (hrest hnot)

section Places
variable {onChain next : Commitment} {row : Recoverable} {depth : Nat}

/-- The search backs out of the rows before one that is tried. -/
theorem traceVisit_before (hpath : Path live path) (hdepth : live.length = path.length + 1 + depth)
    {before after : List Recoverable}
    (hrows : chaining onChain running live path = before ++ row :: after)
    (hdead : ∀ r ∈ before, DeadEnd onChain live path r) :
    ∀ r ∈ before, ∀ post, r.delta.newCommitment = some post →
      (traceVisit onChain live depth path r post).1 = none := fun r hr _ hpost =>
  (traceVisit_eq_none hpath (hrows ▸ List.mem_append_left _ hr) hdepth hpost).mpr (hdead r hr)

/-- Where a row is tried, the path can still grow. -/
theorem TriedAt.length_lt (hpath : Path live path) (htried : TriedAt onChain live running path row) :
    ∃ depth, live.length = path.length + 1 + depth := by
  have hlong := (hpath.snoc htried.mem).length_le
  rw [List.length_append, List.length_singleton] at hlong
  exact Nat.exists_eq_add_of_le hlong

/-- The hops of the search from a place that it comes to are hops of the whole
search. -/
theorem Comes.sublist (h : Comes stored onChain live running path) :
    List.Sublist (traceWalk onChain live (live.length - path.length) running path).2
      (hopsTried stored onChain live) := by
  induction h with
  | start => exact List.Sublist.refl _
  | @hop running next path row hcomes htried hnew hend ih =>
    obtain ⟨depth, hdepth⟩ := htried.length_lt hcomes.isPath
    have hhere : live.length - path.length = depth + 1 := by omega
    have hthere : live.length - (path ++ [row]).length = depth := by
      rw [List.length_append, List.length_singleton]
      omega
    obtain ⟨before, after, hrows, hbefore⟩ := htried
    have hdead := traceVisit_before hcomes.isPath hdepth hrows fun r hr => (hbefore r hr).1
    have hfront := traceRows_prefix path.length (traceVisit onChain live depth path)
      after hdead (fun r hr => (hbefore r hr).2) hnew List.not_mem_nil
    rw [hhere, traceWalk_succ, hrows] at ih
    rw [hthere]
    refine List.Sublist.trans ?_ (hfront.sublist.trans ih)
    rw [traceVisit, if_neg hend]
    exact ((List.Sublist.refl _).cons _).trans (List.sublist_append_right _ _)

/-- Two rows with one post commitment that are tried at one place: the second tries
the same hop again. -/
theorem hop_twice (hcomes : Comes stored onChain live running path) {a b : Recoverable}
    {before mid after : List Recoverable}
    (hrows : chaining onChain running live path = (before ++ a :: mid) ++ b :: after)
    (ha : ∀ r ∈ before, ¬Copy r a)
    (hb : ∀ r ∈ before ++ a :: mid, DeadEnd onChain live path r ∧ ¬Copy r b)
    (hanew : a.delta.newCommitment = some next) (hbnew : b.delta.newCommitment = some next) :
    ¬(hopsTried stored onChain live).Nodup := by
  intro hnodup
  obtain ⟨depth, hdepth⟩ := TriedAt.length_lt hcomes.isPath ⟨_, _, hrows, hb⟩
  have hhere : live.length - path.length = depth + 1 := by omega
  have hdead := traceVisit_before hcomes.isPath hdepth hrows fun r hr => (hb r hr).1
  have hfirst := traceRows_prefix path.length (traceVisit onChain live depth path) mid
    (fun r hr => hdead r (List.mem_append_left _ hr)) ha hanew List.not_mem_nil
  have hsecond := traceRows_prefix path.length (traceVisit onChain live depth path) after hdead
    (fun r hr => (hb r hr).2) hbnew List.not_mem_nil
  have hplace := hcomes.sublist
  rw [hhere, traceWalk_succ, hrows] at hplace
  have hhops := (hsecond.sublist.trans hplace).nodup hnodup
  refine (List.nodup_append.mp hhops).2.2 (path.length, next) ?_ _ List.mem_cons_self rfl
  exact hfirst.subset (List.mem_append_right _ List.mem_cons_self)

/-- Where no hop is tried twice, the copies that are tried share a nonce. -/
theorem copiesShareNonce_of_nodup (h : (hopsTried stored onChain live).Nodup) :
    CopiesShareNonce stored onChain live := by
  intro running path hcomes a b ha hb hpost
  obtain ⟨next, hanew⟩ := Option.ne_none_iff_exists'.mp (mem_chaining.mp ha.mem).2.2.1
  have hbnew := hpost.symm.trans hanew
  obtain ⟨before, after, hrows, hbefore⟩ := ha
  obtain ⟨before', after', hrows', hbefore'⟩ := hb
  rcases List.append_eq_append_iff.mp (hrows.symm.trans hrows') with
    ⟨mid, rfl, hmid⟩ | ⟨mid, rfl, hmid⟩
  · cases mid with
    | nil => rw [(List.cons.inj hmid).1]
    | cons first mid =>
      obtain ⟨rfl, -⟩ := List.cons.inj hmid
      exact absurd h (hop_twice hcomes hrows' (fun r hr => (hbefore r hr).2) hbefore' hanew hbnew)
  · cases mid with
    | nil => rw [(List.cons.inj hmid).1]
    | cons first mid =>
      obtain ⟨rfl, -⟩ := List.cons.inj hmid
      exact absurd h (hop_twice hcomes hrows (fun r hr => (hbefore' r hr).2) hbefore hbnew hanew)

end Places

end Bound

/-- Where every post commitment has a single base and the copies of a hop that are
tried share a nonce, the search tries at most as many hops as there are pairs of
rows, whether it finds a path or not. Elsewhere it tries a hop again. -/
theorem recoverable_hops_le_square (stored onChain : Commitment) (live : List Recoverable)
    (hsingle : SingleBase live) :
    (CopiesShareNonce stored onChain live →
      (hopsTried stored onChain live).length ≤ live.length ^ 2) ∧
    (¬CopiesShareNonce stored onChain live → ¬(hopsTried stored onChain live).Nodup) := by
  refine ⟨fun hshare => ?_, mt copiesShareNonce_of_nodup⟩
  have hdepth : live.length = ([] : List Recoverable).length + live.length := (Nat.zero_add _).symm
  obtain ⟨hnodup, hhops⟩ := traceWalk_hops hsingle hshare .start hdepth
  let posts := live.filterMap (·.delta.newCommitment)
  have hsubset : hopsTried stored onChain live ⊆ List.range live.length ×ˢ posts := by
    intro hop hmem
    obtain ⟨m, hm, heq, hto⟩ := hhops hop hmem
    obtain _ | ⟨-, row, hrow, -, hpost⟩ := hto
    refine List.mem_product.mpr ⟨List.mem_range.mpr ?_, List.mem_filterMap.mpr ⟨row, hrow, hpost⟩⟩
    have hdepth : hop.1 = 0 + m := heq
    omega
  calc (hopsTried stored onChain live).length
      ≤ (List.range live.length ×ˢ posts).length := (List.subperm_of_subset hnodup hsubset).length_le
    _ = live.length * posts.length := by rw [List.length_product, List.length_range]
    _ ≤ live.length * live.length := Nat.mul_le_mul_left _ (List.length_filterMap_le _ _)
    _ = live.length ^ 2 := (sq live.length).symm

namespace Demo

def row (nonce : Nonce) (base post : Commitment) : Recoverable where
  ageSeconds := 0
  delta := ⟨nonce, base, some post, "", .retained 0 (some .orphaned)⟩
  source := .retained

/-- A chain of seven hops, each held twice; a copy has its own nonce where
`relabelled`. -/
def copies (relabelled : Bool) : List Recoverable :=
  let posts := ["s", "t", "u", "v", "w", "x", "y", "z"]
  (posts.zip posts.tail).zipIdx.flatMap (fun ((base, post), hop) =>
    [row (BitVec.ofNat 64 hop) base post,
     row (BitVec.ofNat 64 (if relabelled then hop + 7 else hop)) base post])

end Demo

/-- Copies under nonces of their own are no burden where the chain's head is reached,
and copies that share a nonce nowhere: 7 hops, far fewer than 196. -/
theorem recoverable_hops_le_square_copies :
    (hopsTried "s" "z" (Demo.copies true)).length ≤ (Demo.copies true).length ^ 2 ∧
    (hopsTried "s" "elsewhere" (Demo.copies false)).length ≤ (Demo.copies false).length ^ 2 ∧
    ¬CopiesShareNonce "s" "elsewhere" (Demo.copies true) := by
  refine ⟨?_, ?_, fun hshare => ?_⟩
  · exact (recoverable_hops_le_square "s" "z" _ (by decide +kernel)).1
      (copiesShareNonce_of_nodup (by decide +kernel))
  · exact (recoverable_hops_le_square "s" "elsewhere" _ (by decide +kernel)).1
      (copiesShareNonce_of_nodup (by decide +kernel))
  · exact absurd ((recoverable_hops_le_square "s" "elsewhere" _ (by decide +kernel)).1 hshare)
      (by decide +kernel)

/-- Copies under nonces of their own are walked each in turn: 254 hops for 14
rows. -/
theorem relabelled_copies_exceed_square :
    SingleBase (Demo.copies true) ∧ (Demo.copies true).length = 14 ∧
    (hopsTried "s" "elsewhere" (Demo.copies true)).length = 254 ∧
    ¬(hopsTried "s" "elsewhere" (Demo.copies true)).length ≤ (Demo.copies true).length ^ 2 := by
  decide +kernel

end Guardian.Recoverable
