import Guardian.Lib.Keyset

/- Reading a feed to its end.

   A feed answers a request with the first rows past a cursor and, where there are more, a
   token for the last of them. It reads one row more than it shows to know whether there
   are. A reader sends back the token it got; where a request fails it makes it again. The
   rows may change from request to request, and the pages may differ in length.

   Over the whole reading the entries come in the order of their keys, so none comes
   twice, and a reading that comes to a page without a token has listed every key that
   was there and shown at each request (`Reading.sorted`, `Reading.covers`). -/
namespace Keyset

variable {ρ κ : Type} [LinearOrder κ]

/-! ## Pages -/

/-- The rows past the cursor, sorted and cut. -/
theorem isPage_read {key : ρ → κ} {rows : List ρ} {cursor : Option κ} {past : ρ → Bool}
    {le : ρ → ρ → Bool} (hne : rows.Pairwise fun a b => key a ≠ key b)
    (hpast : ∀ r, past r = true ↔ After cursor (key r))
    (hle : ∀ a b, le a b = decide (key a ≤ key b)) (limit : Nat) :
    IsPage key limit rows cursor (((rows.filter past).mergeSort le).take limit) := by
  have hsame : le = fun a b => decide (key a ≤ key b) := funext fun a => funext fun b => hle a b
  rw [hsame]
  refine isPage_take ?_ (pairwise_mergeSort (hne.sublist List.filter_sublist))
  intro r
  rw [List.mem_mergeSort, List.mem_filter, hpast]

/-- A cursor adds its filter; none adds nothing. -/
theorem all_iff_after {α : Type} {cursor : Option α} {position : α → κ} {past : α → ρ → Bool}
    {key : ρ → κ} (h : ∀ c r, past c r = true ↔ position c < key r) (r : ρ) :
    (cursor.all fun c => past c r) = true ↔ After (cursor.map position) (key r) := by
  cases cursor with
  | none => exact ⟨fun _ c hc => (nomatch hc), fun _ => rfl⟩
  | some c =>
    rw [Option.all_some, h]
    refine ⟨?_, fun hafter => hafter _ rfl⟩
    intro hlt d hd
    cases hd
    exact hlt

/-! ## Walks -/


/-- The first rows past the cursor, and whether there are more. -/
structure IsPart (key : ρ → κ) (rows : List ρ) (cursor : Option κ) (page : List ρ) (more : Bool) :
    Prop where
  mem : ∀ r ∈ page, r ∈ rows ∧ After cursor (key r)
  sorted : page.Pairwise fun a b => key a < key b
  complete : ∀ r ∈ rows, After cursor (key r) → r ∈ page ∨
    (more = true ∧ ∀ p ∈ page, key p < key r)

/-- All but the row read to see whether there are more. -/
theorem IsPage.isPart {key : ρ → κ} {limit : Nat} {rows found : List ρ} {cursor : Option κ}
    (h : IsPage key (limit + 1) rows cursor found) :
    IsPart key rows cursor (found.take limit) (decide (limit < found.length)) where
  mem := fun r hr => h.mem r (List.mem_of_mem_take hr)
  sorted := h.sorted.sublist (List.take_sublist limit found)
  complete := by
    intro r hr hafter
    rw [decide_eq_true_eq]
    obtain hin | ⟨hfull, hall⟩ := h.complete r hr hafter
    · rw [← List.take_append_drop limit found, List.mem_append] at hin
      obtain htake | hdrop := hin
      · exact .inl htake
      · refine .inr ⟨?_, ?_⟩
        · by_contra hshort
          rw [List.drop_eq_nil_of_le (Nat.le_of_not_lt hshort)] at hdrop
          cases hdrop
        · intro p hp
          have hsorted := h.sorted
          rw [← List.take_append_drop limit found, List.pairwise_append] at hsorted
          exact hsorted.2.2 p hp r hdrop
    · exact .inr ⟨hfull, fun p hp => hall p (List.mem_of_mem_take hp)⟩

namespace IsPart

variable {key : ρ → κ} {rows page : List ρ} {cursor : Option κ} {more : Bool}

/-- The last row has the largest key. -/
theorem le_last (h : IsPart key rows cursor page more) {r last : ρ} (hr : r ∈ page)
    (hlast : page.getLast? = some last) : key r ≤ key last := by
  obtain ⟨front, rfl⟩ := List.getLast?_eq_some_iff.mp hlast
  obtain hfront | hsame := List.mem_append.mp hr
  · exact le_of_lt ((List.pairwise_append.mp h.sorted).2.2 r hfront last (List.mem_singleton_self _))
  · rw [List.mem_singleton.mp hsame]

end IsPart

/-- Requests `0` to `last` of one reader. One that is answered moves the cursor to the
    last row of its page; one that is not answered is made again. -/
structure Walk (key : ρ → κ) (rows pages : Nat → List ρ) (cursor : Nat → Option κ)
    (more answered : Nat → Bool) (last : Nat) : Prop where
  part : ∀ j ≤ last, answered j = true → IsPart key (rows j) (cursor j) (pages j) (more j)
  begins : cursor 0 = none
  idle : ∀ j < last, answered j = false → cursor (j + 1) = cursor j
  moves : ∀ j < last, answered j = true →
    ∃ r, (pages j).getLast? = some r ∧ cursor (j + 1) = some (key r)

/-- What the first `n` requests list. -/
def listed (pages : Nat → List ρ) (answered : Nat → Bool) (n : Nat) : List ρ :=
  (List.range n).flatMap fun j => if answered j then pages j else []

theorem listed_succ (pages : Nat → List ρ) (answered : Nat → Bool) (n : Nat) :
    listed pages answered (n + 1) =
      listed pages answered n ++ if answered n then pages n else [] := by
  unfold listed
  rw [List.range_succ, List.flatMap_append, List.flatMap_singleton]

namespace Walk

variable {key : ρ → κ} {rows pages : Nat → List ρ} {cursor : Nat → Option κ}
  {more answered : Nat → Bool} {last : Nat}

/-- The cursor is at or past every row listed. -/
theorem le_cursor (h : Walk key rows pages cursor more answered last) {n : Nat} (hn : n ≤ last) :
    ∀ r ∈ listed pages answered n, ∃ c ∈ cursor n, key r ≤ c := by
  induction n with
  | zero =>
    intro r hr
    cases hr
  | succ n ih =>
    intro r hr
    rw [listed_succ, List.mem_append] at hr
    cases hanswered : answered n with
    | false =>
      rw [hanswered, if_neg Bool.false_ne_true] at hr
      rw [h.idle n hn hanswered]
      exact ih (Nat.le_of_succ_le hn) r (hr.resolve_right (List.not_mem_nil))
    | true =>
      rw [hanswered, if_pos rfl] at hr
      obtain ⟨lastRow, hlast, hcursor⟩ := h.moves n hn hanswered
      have hpart := h.part n (Nat.le_of_succ_le hn) hanswered
      refine ⟨key lastRow, hcursor, ?_⟩
      obtain hbefore | hpage := hr
      · obtain ⟨c, hc, hle⟩ := ih (Nat.le_of_succ_le hn) r hbefore
        exact le_trans hle (le_of_lt ((hpart.mem lastRow (List.mem_of_getLast? hlast)).2 c hc))
      · exact hpart.le_last hpage hlast

/-- The rows come in the order of their keys, over the whole walk. -/
theorem sorted (h : Walk key rows pages cursor more answered last) {n : Nat}
    (hn : n ≤ last + 1) : (listed pages answered n).Pairwise fun a b => key a < key b := by
  induction n with
  | zero => exact List.Pairwise.nil
  | succ n ih =>
    rw [listed_succ]
    cases hanswered : answered n with
    | false =>
      rw [if_neg Bool.false_ne_true, List.append_nil]
      exact ih (Nat.le_of_succ_le hn)
    | true =>
      have hle : n ≤ last := Nat.le_of_succ_le_succ hn
      have hpart := h.part n hle hanswered
      rw [if_pos rfl, List.pairwise_append]
      refine ⟨ih (Nat.le_of_succ_le hn), hpart.sorted, ?_⟩
      intro a ha b hb
      obtain ⟨c, hc, hac⟩ := h.le_cursor hle a ha
      exact lt_of_le_of_lt hac ((hpart.mem b hb).2 c hc)

/-- A key that was there at each request answered is listed, or is past the cursor. -/
theorem listed_or_after (h : Walk key rows pages cursor more answered last) {k : κ}
    (hrows : ∀ j ≤ last, answered j = true → ∃ r ∈ rows j, key r = k) {n : Nat} (hn : n ≤ last) :
    (∃ r ∈ listed pages answered n, key r = k) ∨ After (cursor n) k := by
  induction n with
  | zero =>
    right
    intro c hc
    rw [h.begins] at hc
    cases hc
  | succ n ih =>
    rw [listed_succ]
    obtain ⟨r, hr, hk⟩ | hafter := ih (Nat.le_of_succ_le hn)
    · exact .inl ⟨r, List.mem_append_left _ hr, hk⟩
    · cases hanswered : answered n with
      | false =>
        right
        rw [h.idle n hn hanswered]
        exact hafter
      | true =>
        obtain ⟨row, hrow, rfl⟩ := hrows n (Nat.le_of_succ_le hn) hanswered
        obtain ⟨lastRow, hlast, hcursor⟩ := h.moves n hn hanswered
        obtain hin | ⟨-, hall⟩ :=
          (h.part n (Nat.le_of_succ_le hn) hanswered).complete row hrow hafter
        · exact .inl ⟨row, List.mem_append_right _ hin, rfl⟩
        · right
          rw [hcursor]
          intro c hc
          cases hc
          exact hall lastRow (List.mem_of_getLast? hlast)

/-- A walk that came to a page with nothing after it listed every key that was there
    throughout. -/
theorem covers (h : Walk key rows pages cursor more answered last)
    (hends : answered last = true ∧ more last = false) {k : κ}
    (hrows : ∀ j ≤ last, answered j = true → ∃ r ∈ rows j, key r = k) :
    ∃ r ∈ listed pages answered (last + 1), key r = k := by
  rw [listed_succ, hends.1, if_pos rfl]
  obtain ⟨r, hr, hk⟩ | hafter := h.listed_or_after hrows (Nat.le_refl last)
  · exact ⟨r, List.mem_append_left _ hr, hk⟩
  · obtain ⟨row, hrow, rfl⟩ := hrows last (Nat.le_refl last) hends.1
    obtain hin | ⟨hmore, -⟩ :=
      (h.part last (Nat.le_refl last) hends.1).complete row hrow hafter
    · exact ⟨row, List.mem_append_right _ hin, rfl⟩
    · rw [hends.2] at hmore
      cases hmore

end Walk

/-! ## Readings -/

/-- The answer to a request: entries, and the token of the next page. -/
structure Answer (ε τ : Type) where
  items : List ε
  next : Option τ

variable {ε τ err : Type}

/-- The tokens a reader sends. `serve j` is the feed as it is at request `j`. -/
structure Reading (serve : Nat → Option τ → Except err (Answer ε τ)) where
  sent : Nat → Option τ
  first : sent 0 = none
  step : ∀ j, sent (j + 1) =
    match serve j (sent j) with
    | .ok answer => answer.next
    | .error _ => sent j

/-- How a feed answers: from the rows `found` past the position of the token, with a token
    for the last one where there are more. An entry shows a row, or the row is left out. -/
structure Serves (serve : Nat → Option τ → Except err (Answer ε τ)) (key : ρ → κ)
    (rows : Nat → List ρ) (position : Option τ → Option κ) (found : Nat → Option τ → List ρ)
    (more : Nat → Option τ → Bool) (shown : Nat → ρ → Option ε) : Prop where
  begins : position none = none
  part : ∀ {j token answer}, serve j token = .ok answer →
    IsPart key (rows j) (position token) (found j token) (more j token)
  items : ∀ {j token answer}, serve j token = .ok answer →
    answer.items = (found j token).filterMap (shown j)
  next : ∀ {j token answer}, serve j token = .ok answer → more j token = true →
    ∃ r t, (found j token).getLast? = some r ∧ answer.next = some t ∧ position (some t) = some (key r)
  ends : ∀ {j token answer}, serve j token = .ok answer → more j token = false → answer.next = none

namespace Reading

variable {serve : Nat → Option τ → Except err (Answer ε τ)}

/-- What a request is answered with. -/
def answer (reading : Reading serve) (j : Nat) : Except err (Answer ε τ) :=
  serve j (reading.sent j)

def answered (reading : Reading serve) (j : Nat) : Bool :=
  match reading.answer j with
  | .ok _ => true
  | .error _ => false

/-- The entries of one answer. -/
def items (reading : Reading serve) (j : Nat) : List ε :=
  match reading.answer j with
  | .ok answer => answer.items
  | .error _ => []

/-- The entries of the first `n` answers. -/
def entries (reading : Reading serve) (n : Nat) : List ε := (List.range n).flatMap reading.items

/-- Every page before `last` came with a token. -/
def GoesOn (reading : Reading serve) (last : Nat) : Prop :=
  ∀ j < last, ∀ answer, reading.answer j = .ok answer → answer.next ≠ none

/-- The page came without a token. -/
def EndsAt (reading : Reading serve) (last : Nat) : Prop :=
  ∃ answer, reading.answer last = .ok answer ∧ answer.next = none

theorem answered_iff {reading : Reading serve} {j : Nat} :
    reading.answered j = true ↔ ∃ answer, serve j (reading.sent j) = .ok answer := by
  unfold answered answer
  cases serve j (reading.sent j) with
  | ok answer => exact ⟨fun _ => ⟨answer, rfl⟩, fun _ => rfl⟩
  | error e =>
    refine ⟨fun h => (nomatch h), ?_⟩
    rintro ⟨answer, h⟩
    cases h

section Served

variable {key : ρ → κ} {rows : Nat → List ρ} {position : Option τ → Option κ}
  {found : Nat → Option τ → List ρ} {more : Nat → Option τ → Bool} {shown : Nat → ρ → Option ε}
  {last : Nat}

theorem walk (reading : Reading serve) (h : Serves serve key rows position found more shown)
    (hgoes : reading.GoesOn last) :
    Walk key rows (fun j => found j (reading.sent j)) (fun j => position (reading.sent j))
      (fun j => more j (reading.sent j)) reading.answered last where
  part := by
    intro j _ hanswered
    obtain ⟨answer, hanswer⟩ := answered_iff.mp hanswered
    exact h.part hanswer
  begins := by
    rw [reading.first]
    exact h.begins
  idle := by
    intro j _ hfailed
    rw [reading.step]
    unfold answered answer at hfailed
    cases hserve : serve j (reading.sent j) with
    | ok answer =>
      rw [hserve] at hfailed
      cases hfailed
    | error e => rfl
  moves := by
    intro j hj hanswered
    obtain ⟨answer, hanswer⟩ := answered_iff.mp hanswered
    have hmore : more j (reading.sent j) = true := by
      by_contra hnone
      exact hgoes j hj answer hanswer (h.ends hanswer (Bool.eq_false_iff.mpr hnone))
    obtain ⟨r, t, hlast, hnext, hposition⟩ := h.next hanswer hmore
    refine ⟨r, hlast, ?_⟩
    rw [reading.step, hanswer]
    show position answer.next = _
    rw [hnext, hposition]

/-- The entries show the rows listed. -/
theorem entry_of_listed (reading : Reading serve)
    (h : Serves serve key rows position found more shown) {j : Nat} :
    reading.items j =
      if reading.answered j then (found j (reading.sent j)).filterMap (shown j) else [] := by
  unfold items
  cases hanswer : reading.answer j with
  | ok answer =>
    rw [if_pos (answered_iff.mpr ⟨answer, hanswer⟩)]
    exact h.items hanswer
  | error e =>
    have hfailed : reading.answered j = false := by
      unfold answered
      rw [hanswer]
    rw [hfailed, if_neg Bool.false_ne_true]

theorem entries_succ (reading : Reading serve) (n : Nat) :
    reading.entries (n + 1) = reading.entries n ++ reading.items n := by
  unfold entries
  rw [List.range_succ, List.flatMap_append, List.flatMap_singleton]

variable {entryKey : ε → κ}

/-- Each entry shows a row listed; the entries' keys are a sublist of the rows'. -/
theorem keys_sublist (reading : Reading serve)
    (h : Serves serve key rows position found more shown)
    (hkey : ∀ j r e, shown j r = some e → entryKey e = key r) (n : Nat) :
    List.Sublist ((reading.entries n).map entryKey)
      ((listed (fun j => found j (reading.sent j)) reading.answered n).map key) := by
  induction n with
  | zero => exact List.Sublist.refl _
  | succ n ih =>
    rw [entries_succ, listed_succ, List.map_append, List.map_append]
    refine ih.append ?_
    rw [reading.entry_of_listed h]
    cases reading.answered n with
    | false => exact List.Sublist.refl _
    | true =>
      rw [if_pos rfl, if_pos rfl]
      induction found n (reading.sent n) with
      | nil => exact List.Sublist.refl _
      | cons r rs ihr =>
        cases hshown : shown n r with
        | none =>
          rw [List.filterMap_cons_none hshown, List.map_cons]
          exact ihr.cons _
        | some e =>
          rw [List.filterMap_cons_some hshown, List.map_cons, List.map_cons, hkey n r e hshown]
          exact ihr.cons_cons _

/-- The entries come in the order of their keys, over the whole reading. -/
theorem sorted (reading : Reading serve) (h : Serves serve key rows position found more shown)
    (hkey : ∀ j r e, shown j r = some e → entryKey e = key r) (hgoes : reading.GoesOn last) :
    (reading.entries (last + 1)).Pairwise fun a b => entryKey a < entryKey b := by
  have hlisted := (reading.walk h hgoes).sorted (Nat.le_refl (last + 1))
  rw [← List.pairwise_map] at hlisted ⊢
  exact hlisted.sublist (reading.keys_sublist h hkey (last + 1))

/-- An entry of one page is an entry of the reading. -/
theorem mem_entries {reading : Reading serve} {e : ε} {j n : Nat} (hj : j < n)
    (he : e ∈ reading.items j) : e ∈ reading.entries n :=
  List.mem_flatMap.mpr ⟨j, List.mem_range.mpr hj, he⟩

/-- A reading that came to its end listed every key that was there and shown at each
    request answered. -/
theorem covers (reading : Reading serve) (h : Serves serve key rows position found more shown)
    (hkey : ∀ j r e, shown j r = some e → entryKey e = key r) (hgoes : reading.GoesOn last)
    (hends : reading.EndsAt last) {k : κ}
    (hrows : ∀ j ≤ last, reading.answered j = true → ∃ r ∈ rows j, key r = k)
    (hshown : ∀ j ≤ last, reading.answered j = true → ∀ r ∈ rows j, key r = k →
      (shown j r).isSome) :
    ∃ e ∈ reading.entries (last + 1), entryKey e = k := by
  obtain ⟨answer, hanswer, hnext⟩ := hends
  have hlast : more last (reading.sent last) = false := by
    cases hmore : more last (reading.sent last) with
    | false => rfl
    | true =>
      obtain ⟨r, t, -, hsome, -⟩ := h.next hanswer hmore
      rw [hnext] at hsome
      cases hsome
  have hwalk := reading.walk h hgoes
  obtain ⟨r, hr, hk⟩ := hwalk.covers ⟨answered_iff.mpr ⟨answer, hanswer⟩, hlast⟩ hrows
  obtain ⟨j, hj, hin⟩ := List.mem_flatMap.mp hr
  have hj' : j < last + 1 := List.mem_range.mp hj
  cases hanswered : reading.answered j with
  | false =>
    rw [hanswered, if_neg Bool.false_ne_true] at hin
    cases hin
  | true =>
    rw [hanswered, if_pos rfl] at hin
    have hrow := ((hwalk.part j (Nat.le_of_lt_succ hj') hanswered).mem r hin).1
    obtain ⟨e, he⟩ := Option.isSome_iff_exists.mp
      (hshown j (Nat.le_of_lt_succ hj') hanswered r hrow hk)
    refine ⟨e, mem_entries hj' ?_, (hkey j r e he).trans hk⟩
    rw [reading.entry_of_listed h, hanswered, if_pos rfl]
    exact List.mem_filterMap.mpr ⟨r, hin, he⟩

/-- What a page shows was among the rows. -/
theorem row_of_item (reading : Reading serve)
    (h : Serves serve key rows position found more shown) {j : Nat} {e : ε}
    (he : e ∈ reading.items j) : reading.answered j = true ∧ ∃ r ∈ rows j, shown j r = some e := by
  rw [reading.entry_of_listed h] at he
  cases hanswered : reading.answered j with
  | false =>
    rw [hanswered, if_neg Bool.false_ne_true] at he
    cases he
  | true =>
    rw [hanswered, if_pos rfl] at he
    obtain ⟨r, hr, hshown⟩ := List.mem_filterMap.mp he
    obtain ⟨answer, hanswer⟩ := answered_iff.mp hanswered
    exact ⟨rfl, r, ((h.part hanswer).mem r hr).1, hshown⟩

/-- Where every row is shown, each answer with a token shows one at least. -/
theorem answered_le_entries (reading : Reading serve)
    (h : Serves serve key rows position found more shown) (hgoes : reading.GoesOn last)
    (hshown : ∀ j, ∀ r ∈ rows j, (shown j r).isSome) {n : Nat} (hn : n ≤ last) :
    ((List.range n).filter reading.answered).length ≤ (reading.entries n).length := by
  have hwalk := reading.walk h hgoes
  induction n with
  | zero => exact Nat.le_refl _
  | succ n ih =>
    have hbefore := ih (Nat.le_of_succ_le hn)
    rw [entries_succ, List.range_succ, List.filter_append, List.length_append,
      List.length_append]
    cases hanswered : reading.answered n with
    | false =>
      rw [List.filter_cons_of_neg (by rw [hanswered]; exact Bool.false_ne_true), List.filter_nil]
      exact Nat.le_trans hbefore (Nat.le_add_right _ _)
    | true =>
      obtain ⟨r, hlast, -⟩ := hwalk.moves n hn hanswered
      have hin := List.mem_of_getLast? hlast
      have hrow := ((hwalk.part n (Nat.le_of_succ_le hn) hanswered).mem r hin).1
      obtain ⟨e, he⟩ := Option.isSome_iff_exists.mp (hshown n r hrow)
      have hitem : e ∈ reading.items n := by
        rw [reading.entry_of_listed h, hanswered, if_pos rfl]
        exact List.mem_filterMap.mpr ⟨r, hin, he⟩
      have hpos : 0 < (reading.items n).length := List.length_pos_of_mem hitem
      rw [List.filter_cons_of_pos hanswered, List.filter_nil, List.length_singleton]
      omega

end Served

end Reading

/-- Descending numbers are at least as far apart as there are of them. -/
theorem length_le_of_descending {l : List Int} (h : l.Pairwise fun a b => b < a) {first last : Int}
    (hfirst : l.head? = some first) (hlast : l.getLast? = some last) :
    (l.length : Int) ≤ first - last + 1 := by
  induction l generalizing first with
  | nil => cases hfirst
  | cons a l ih =>
    obtain rfl := Option.some.inj hfirst
    obtain ⟨hhead, htail⟩ := List.pairwise_cons.mp h
    cases l with
    | nil =>
      obtain rfl := Option.some.inj hlast
      simp
    | cons b l =>
      have hrest := ih htail rfl (by rwa [List.getLast?_cons_cons] at hlast)
      have hlt := hhead b List.mem_cons_self
      rw [List.length_cons]
      push_cast
      omega

end Keyset
