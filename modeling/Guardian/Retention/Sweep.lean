import Guardian.Lib.Numbering
import Guardian.Retention.Records

/- What the retention of execution records keeps.

   `Prunable` says what either backend may remove, of the set of records it holds
   and the proposals it has. Both remove only such records, and all of them when a
   call is not cut short by its limit (`Pruned`). From that alone follow the three
   results: the active and the newest attempts of a live proposal stay, attempt
   numbers increase as long as the proposal is there, and a whole sweep leaves the
   same records in both backends. -/
namespace Guardian.Retention

/-! ## What may be removed -/

/-- The records held of each account. -/
abbrev Records := String → AttemptRecord → Prop

/-- A later attempt of the same proposal. -/
def Supersedes (n r : AttemptRecord) : Prop :=
  n.reservation.proposalId = r.reservation.proposalId ∧
    r.reservation.attempt < n.reservation.attempt

/-- A finished attempt whose proposal is gone or that a newer attempt
supersedes. -/
def Prunable (holds : Records) (proposals : String → String → Prop) (cutoff : Time)
    (accountId : String) (r : AttemptRecord) : Prop :=
  r.finishedBefore cutoff = true ∧
    (¬ proposals accountId r.reservation.proposalId ∨
      ∃ n, holds accountId n ∧ Supersedes n r)

/-- What one call does: it removes only prunable records, and all of them when
it was not cut short. -/
structure Pruned (holds holds' : Records) (proposals : String → String → Prop) (cutoff : Time)
    (cutShort : Prop) : Prop where
  kept : ∀ {a r}, holds' a r → holds a r
  removed : ∀ {a r}, holds a r → ¬ holds' a r → Prunable holds proposals cutoff a r
  complete : ∀ {a r}, ¬ cutShort → holds' a r → ¬ Prunable holds proposals cutoff a r

namespace Pruned
variable {holds holds' : Records} {proposals : String → String → Prop} {cutoff : Time}
  {cutShort : Prop} {a : String} {r : AttemptRecord}

theorem keeps_active (h : Pruned holds holds' proposals cutoff cutShort) (hr : holds a r)
    (hactive : r.reservation.isActive = true) : holds' a r := by
  by_contra hgone
  have hfinished := (h.removed hr hgone).1
  rw [AttemptRecord.finishedBefore, hactive] at hfinished
  exact absurd hfinished (by simp)

theorem keeps_newest (h : Pruned holds holds' proposals cutoff cutShort) (hr : holds a r)
    (hproposal : proposals a r.reservation.proposalId)
    (hnewest : ∀ n, holds a n → ¬ Supersedes n r) : holds' a r := by
  by_contra hgone
  obtain hno | ⟨n, hn, hsup⟩ := (h.removed hr hgone).2
  · exact hno hproposal
  · exact hnewest n hn hsup

/-- A superseded attempt of a live proposal is superseded by one that stays. -/
theorem superseded_stays (h : Pruned holds holds' proposals cutoff cutShort)
    (hproposal : proposals a r.reservation.proposalId) {bound : Nat}
    (hbound : ∀ n, holds a n → n.reservation.attempt ≤ bound) {n : AttemptRecord}
    (hn : holds a n) (hsup : Supersedes n r) : ∃ n', holds' a n' ∧ Supersedes n' r := by
  -- By induction on how far `n` is below the bound: where it goes, a newer one is held.
  induction hgap : bound - n.reservation.attempt using Nat.strong_induction_on generalizing n with
  | _ gap ih =>
    by_cases hstays : holds' a n
    · exact ⟨n, hstays, hsup⟩
    · obtain hno | ⟨m, hm, hsup'⟩ := (h.removed hn hstays).2
      · rw [hsup.1] at hno
        exact absurd hproposal hno
      · have hlt := hsup'.2
        have hle := hbound m hm
        refine ih (bound - m.reservation.attempt) (by omega) hm ⟨hsup'.1.trans hsup.1, ?_⟩ rfl
        exact Nat.lt_trans hsup.2 hlt

/-- What is prunable after a call is what was prunable and stayed. -/
theorem prunable_iff (h : Pruned holds holds' proposals cutoff cutShort) {bound : Nat}
    (hbound : ∀ n, holds a n → n.reservation.attempt ≤ bound) :
    Prunable holds' proposals cutoff a r ↔ Prunable holds proposals cutoff a r := by
  constructor
  · rintro ⟨hfinished, hgone | ⟨n, hn, hsup⟩⟩
    · exact ⟨hfinished, .inl hgone⟩
    · exact ⟨hfinished, .inr ⟨n, h.kept hn, hsup⟩⟩
  · rintro ⟨hfinished, hgone | ⟨n, hn, hsup⟩⟩
    · exact ⟨hfinished, .inl hgone⟩
    · by_cases hproposal : proposals a r.reservation.proposalId
      · exact ⟨hfinished, .inr (h.superseded_stays hproposal hbound hn hsup)⟩
      · exact ⟨hfinished, .inl hproposal⟩

end Pruned

/-! ## The database -/

namespace Tables
variable {t t' : Tables} {locked : AttemptKey → Bool} {cutoff : Time} {limit count : Nat}

/-- `EXISTS` over the proposals. -/
def HasProposal (t : Tables) (accountId proposalId : String) : Prop :=
  t.proposalExists accountId proposalId = true

theorem lookup_eq_some {K V : Type} [DecidableEq K] {l : List (K × V)}
    (hnodup : (l.map Prod.fst).Nodup) {k : K} {v : V} : l.lookup k = some v ↔ (k, v) ∈ l := by
  induction l with
  | nil => simp
  | cons first rest ih =>
    obtain ⟨k', v'⟩ := first
    rw [List.map_cons, List.nodup_cons] at hnodup
    by_cases hk : k = k'
    · subst hk
      rw [List.lookup_cons_self, Option.some.injEq, List.mem_cons, Prod.mk.injEq]
      constructor
      · intro hv
        exact .inl ⟨rfl, hv.symm⟩
      · rintro (⟨-, rfl⟩ | hmem)
        · rfl
        · exact absurd (List.mem_map.mpr ⟨_, hmem, rfl⟩) hnodup.1
    · rw [List.lookup_cons, beq_false_of_ne hk, ih hnodup.2, List.mem_cons, Prod.mk.injEq]
      simp only [hk, false_and, false_or]

/-- The record of a reservation row. -/
def recordOf (t : Tables) (row : ReservationRow) : AttemptRecord :=
  ⟨row.reservation, t.submissions.lookup row.key, t.outcomes.lookup row.key⟩

theorem holds_iff {a : String} {r : AttemptRecord} :
    t.Holds a r ↔ ∃ row ∈ t.reservations, row.accountId = a ∧ r = t.recordOf row := by
  constructor
  · rintro ⟨hrow, hevidence, houtcome⟩
    refine ⟨_, hrow, rfl, ?_⟩
    obtain ⟨reservation, evidence, outcome⟩ := r
    exact AttemptRecord.mk.injEq .. |>.mpr ⟨rfl, hevidence, houtcome⟩
  · rintro ⟨row, hrow, rfl, rfl⟩
    exact ⟨hrow, rfl, rfl⟩

theorem superseded_iff {row : ReservationRow} :
    t.superseded row = true ↔
      ∃ n, t.Holds row.accountId n ∧ Supersedes n (t.recordOf row) := by
  simp only [superseded, List.any_eq_true, Bool.and_eq_true, beq_iff_eq, decide_eq_true_eq]
  constructor
  · rintro ⟨n, hn, ⟨haccount, hproposal⟩, hlt⟩
    exact ⟨t.recordOf n, holds_iff.mpr ⟨n, hn, haccount, rfl⟩, hproposal, hlt⟩
  · rintro ⟨n, hn, hproposal, hlt⟩
    obtain ⟨row', hrow', haccount, rfl⟩ := holds_iff.mp hn
    exact ⟨row', hrow', ⟨haccount, hproposal⟩, hlt⟩

/-- What the query matches is the prunable attempts another sweep does not
hold. -/
theorem mem_prunableAttempts {key : AttemptKey} :
    (∃ resolvedAt, (key, resolvedAt) ∈ t.prunableAttempts locked cutoff) ↔
      ∃ row ∈ t.reservations, row.key = key ∧ locked key = false ∧
        Prunable t.Holds t.HasProposal cutoff row.accountId (t.recordOf row) := by
  have hfinished : ∀ row : ReservationRow, (t.recordOf row).finishedBefore cutoff = true ↔
      row.reservation.releasedAt.isSome = true ∧
        ∃ o ∈ t.outcomes, o.1 = row.key ∧ o.2.resolvedAt < cutoff := by
    intro row
    rw [AttemptRecord.finishedBefore, Bool.and_eq_true, ExecutionReservation.isActive,
      Option.any_eq_true]
    refine and_congr (by simp [recordOf]) ?_
    constructor
    · rintro ⟨o, ho, hlt⟩
      exact ⟨(row.key, o), (lookup_eq_some t.uniqueOutcomes).mp ho, rfl,
        of_decide_eq_true hlt⟩
    · rintro ⟨⟨key, o⟩, ho, rfl, hlt⟩
      exact ⟨o, (lookup_eq_some t.uniqueOutcomes).mpr ho, decide_eq_true hlt⟩
  simp only [prunableAttempts, List.mem_flatMap, List.mem_map, List.mem_filter, prunable,
    Bool.and_eq_true, beq_iff_eq, decide_eq_true_eq, Bool.or_eq_true, Bool.not_eq_true',
    Prod.mk.injEq]
  constructor
  · rintro ⟨-, row, hrow, o, ⟨ho, ⟨⟨⟨⟨hkey, hlt⟩, hreleased⟩, hgone⟩, hfree⟩⟩, rfl, -⟩
    refine ⟨row, hrow, rfl, hfree, (hfinished row).mpr ⟨hreleased, o, ho, hkey, hlt⟩, ?_⟩
    obtain hgone | hsup := hgone
    · exact .inl (by rw [HasProposal]; simpa [recordOf] using hgone)
    · exact .inr (superseded_iff.mp hsup)
  · rintro ⟨row, hrow, rfl, hfree, hdone, hgone⟩
    obtain ⟨hreleased, o, ho, hkey, hlt⟩ := (hfinished row).mp hdone
    refine ⟨_, row, hrow, o, ⟨ho, ⟨⟨⟨⟨hkey, hlt⟩, hreleased⟩, ?_⟩, hfree⟩⟩, rfl, rfl⟩
    obtain hgone | hsup := hgone
    · exact .inl (by rw [HasProposal] at hgone; simpa [recordOf] using hgone)
    · exact .inr (superseded_iff.mpr hsup)

theorem holds_deleteAttempts {attempts : List AttemptKey} {a : String} {r : AttemptRecord} :
    (t.deleteAttempts attempts).Holds a r ↔ t.Holds a r ∧ r.key a ∉ attempts := by
  have hlookup : ∀ {V : Type} (l : List (AttemptKey × V)) {key : AttemptKey}, key ∉ attempts →
      (l.filter fun entry => !attempts.contains entry.1).lookup key = l.lookup key := by
    intro V l key hkey
    induction l with
    | nil => rfl
    | cons first rest ih =>
      obtain ⟨key', v⟩ := first
      by_cases hk : key = key'
      · subst hk
        rw [List.filter_cons_of_pos (by simpa using hkey), List.lookup_cons_self,
          List.lookup_cons_self]
      · rw [List.lookup_cons, beq_false_of_ne hk, ← ih, List.filter_cons]
        split
        · rw [List.lookup_cons, beq_false_of_ne hk]
        · rfl
  simp only [Holds, deleteAttempts, List.mem_filter, Bool.not_eq_true', List.contains_eq_mem,
    decide_eq_false_iff_not]
  constructor
  · rintro ⟨⟨hrow, hkey⟩, hevidence, houtcome⟩
    have hkey' : r.key a ∉ attempts := hkey
    simp only [← List.contains_eq_mem] at hevidence houtcome
    exact ⟨⟨hrow, hevidence.trans (by simpa using hlookup t.submissions hkey'),
      houtcome.trans (by simpa using hlookup t.outcomes hkey')⟩, hkey'⟩
  · rintro ⟨⟨hrow, hevidence, houtcome⟩, hkey⟩
    refine ⟨⟨hrow, hkey⟩, hevidence.trans ?_, houtcome.trans ?_⟩
    · simpa using (hlookup t.submissions hkey).symm
    · simpa using (hlookup t.outcomes hkey).symm

/-- The query matches each attempt at most once. -/
theorem nodup_prunableAttempts :
    ((t.prunableAttempts locked cutoff).map Prod.fst).Nodup := by
  have hone : ∀ row : ReservationRow,
      (((t.outcomes.filter (t.prunable locked cutoff row)).map
        fun o => (row.key, o.2.resolvedAt)).map Prod.fst).Sublist [row.key] := by
    intro row
    have hlen : (t.outcomes.filter (t.prunable locked cutoff row)).length ≤ 1 := by
      have hsub : ((t.outcomes.filter (t.prunable locked cutoff row)).map Prod.fst).Nodup :=
        (List.filter_sublist.map _).nodup t.uniqueOutcomes
      have hall : ∀ k ∈ (t.outcomes.filter (t.prunable locked cutoff row)).map Prod.fst,
          k ∈ [row.key] := by
        intro k hk
        obtain ⟨o, ho, rfl⟩ := List.mem_map.mp hk
        have hprunable := (List.mem_filter.mp ho).2
        simp only [prunable, Bool.and_eq_true, beq_iff_eq] at hprunable
        exact List.mem_singleton.mpr hprunable.1.1.1.1
      have hle := (List.subperm_of_subset hsub hall).length_le
      rwa [List.length_map] at hle
    cases hmatch : t.outcomes.filter (t.prunable locked cutoff row) with
    | nil => exact List.nil_sublist _
    | cons first rest =>
      rw [hmatch, List.length_cons] at hlen
      rw [List.eq_nil_of_length_eq_zero (by omega : rest.length = 0)]
      exact List.Sublist.refl _
  have hsub : ((t.prunableAttempts locked cutoff).map Prod.fst).Sublist
      (t.reservations.map ReservationRow.key) := by
    rw [prunableAttempts, List.map_flatMap]
    induction t.reservations with
    | nil => exact List.Sublist.refl _
    | cons row rest ih =>
      rw [List.flatMap_cons, List.map_cons]
      exact (hone row).append ih
  exact hsub.nodup t.uniqueReservations

/-- The call was cut short by its limit, or skipped a locked attempt. -/
def CutShort (locked : AttemptKey → Bool) (limit count : Nat) : Prop :=
  limit ≤ count ∨ ∃ key, locked key = true

theorem PruneExecutionRecords.hasProposal
    (h : t.PruneExecutionRecords locked cutoff limit count t') : t'.HasProposal = t.HasProposal := by
  obtain ⟨attempts, -, rfl, -⟩ := h
  rfl

/-- A call deletes what it counts, and no more than its limit. -/
theorem PruneExecutionRecords.count_le
    (h : t.PruneExecutionRecords locked cutoff limit count t') :
    count ≤ limit ∧ count + t'.reservations.length = t.reservations.length := by
  obtain ⟨attempts, ⟨ordered, -, -, rfl⟩, rfl, rfl⟩ := h
  set attempts := (ordered.take limit).map Prod.fst with hattempts
  constructor
  · have hnodup : ((t.reservations.filter fun r => attempts.contains r.key).map
        ReservationRow.key).Nodup := (List.filter_sublist.map _).nodup t.uniqueReservations
    have hsub : (t.reservations.filter fun r => attempts.contains r.key).map ReservationRow.key ⊆
        attempts := by
      intro key hkey
      obtain ⟨row, hrow, rfl⟩ := List.mem_map.mp hkey
      simpa using (List.mem_filter.mp hrow).2
    calc (t.reservations.filter fun r => attempts.contains r.key).length
        = ((t.reservations.filter fun r => attempts.contains r.key).map
            ReservationRow.key).length := (List.length_map _).symm
      _ ≤ attempts.length := (List.subperm_of_subset hnodup hsub).length_le
      _ ≤ limit := by
        rw [hattempts, List.length_map, List.length_take]
        exact Nat.min_le_left _ _
  · rw [Tables.deleteAttempts, ← List.length_eq_length_filter_add]

theorem PruneExecutionRecords.pruned
    (h : t.PruneExecutionRecords locked cutoff limit count t') :
    Pruned t.Holds t'.Holds t.HasProposal cutoff (CutShort locked limit count) := by
  obtain ⟨attempts, ⟨ordered, hperm, -, rfl⟩, rfl, rfl⟩ := h
  set attempts := (ordered.take limit).map Prod.fst with hattempts
  have hmatched : ∀ key ∈ attempts, ∃ resolvedAt,
      (key, resolvedAt) ∈ t.prunableAttempts locked cutoff := by
    intro key hkey
    obtain ⟨⟨key', resolvedAt⟩, hmem, rfl⟩ := List.mem_map.mp hkey
    exact ⟨resolvedAt, hperm.mem_iff.mp (List.mem_of_mem_take hmem)⟩
  refine ⟨fun hr => (holds_deleteAttempts.mp hr).1, ?_, ?_⟩
  · intro a r hr hgone
    have hkey : r.key a ∈ attempts := by
      by_contra hnot
      exact hgone (holds_deleteAttempts.mpr ⟨hr, hnot⟩)
    obtain ⟨row, hrow, hrowkey, -, hprunable⟩ := mem_prunableAttempts.mp (hmatched _ hkey)
    obtain ⟨row', hrow', rfl, rfl⟩ := holds_iff.mp hr
    have hsame : row = row' := List.inj_on_of_nodup_map t.uniqueReservations hrow hrow' hrowkey
    exact hsame ▸ hprunable
  · intro a r hcut hr hprunable
    obtain ⟨hr, hnot⟩ := holds_deleteAttempts.mp hr
    obtain ⟨row, hrow, rfl, rfl⟩ := holds_iff.mp hr
    rw [CutShort, not_or, Nat.not_le, not_exists] at hcut
    obtain ⟨hcount, hfree⟩ := hcut
    obtain ⟨resolvedAt, hmem⟩ := mem_prunableAttempts.mpr
      ⟨row, hrow, rfl, by simpa using hfree row.key, hprunable⟩
    -- Every selected attempt is a row the count counts, so nothing was left out.
    have hsel : attempts.length ≤
        (t.reservations.filter fun r => attempts.contains r.key).length := by
      have hnodup : attempts.Nodup :=
        ((List.take_sublist _ _).map _).nodup ((hperm.map _).nodup_iff.mpr nodup_prunableAttempts)
      have hsub : attempts ⊆
          (t.reservations.filter fun r => attempts.contains r.key).map ReservationRow.key := by
        intro key hkey
        obtain ⟨row', hrow', rfl, -⟩ := mem_prunableAttempts.mp (hmatched key hkey)
        exact List.mem_map.mpr ⟨row', List.mem_filter.mpr ⟨hrow', by simpa using hkey⟩, rfl⟩
      calc attempts.length
          ≤ ((t.reservations.filter fun r => attempts.contains r.key).map
              ReservationRow.key).length := (List.subperm_of_subset hnodup hsub).length_le
        _ = (t.reservations.filter fun r => attempts.contains r.key).length := List.length_map _
    have hlength : attempts.length = min limit ordered.length := by
      rw [hattempts, List.length_map, List.length_take]
    have hall : ordered.take limit = ordered := by
      apply List.take_of_length_le
      omega
    refine hnot (List.mem_map.mpr ⟨(row.key, resolvedAt), ?_, rfl⟩)
    rw [hall]
    exact hperm.mem_iff.mpr hmem

end Tables

/-! ## The filesystem -/

/-- The cache holds what the files say. -/
def CacheOk (proposal : String → ProposalFile) (cache : List (String × Bool)) : Prop :=
  ∀ p present, cache.lookup p = some present →
    proposal p = if present then .present else .missing

theorem CacheOk.nil {proposal : String → ProposalFile} : CacheOk proposal [] :=
  fun p present hp => by cases hp

theorem lookUpProposal_spec {proposal : String → ProposalFile} {cache cache' : List (String × Bool)}
    {p : String} {present : Bool} (hcache : CacheOk proposal cache)
    (h : lookUpProposal proposal cache p = some (present, cache')) :
    proposal p = (if present then .present else .missing) ∧ CacheOk proposal cache' := by
  have hcons : ∀ b, proposal p = (if b then ProposalFile.present else .missing) →
      CacheOk proposal ((p, b) :: cache) := by
    intro b hb q present hq
    by_cases hqp : q = p
    · subst hqp
      rw [List.lookup_cons_self] at hq
      cases hq
      exact hb
    · rw [List.lookup_cons, beq_false_of_ne hqp] at hq
      exact hcache q present hq
  rw [lookUpProposal] at h
  cases hlookup : cache.lookup p with
  | some b =>
    rw [hlookup] at h
    cases h
    exact ⟨hcache p present hlookup, hcache⟩
  | none =>
    rw [hlookup] at h
    cases hfile : proposal p with
    | present =>
      rw [hfile] at h
      cases h
      exact ⟨rfl, hcons true hfile⟩
    | missing =>
      rw [hfile] at h
      cases h
      exact ⟨rfl, hcons false hfile⟩
    | unreadable =>
      rw [hfile] at h
      cases h

/-- What the loop may drop, of one account. -/
def Droppable (proposal : String → ProposalFile) (newest : String → Nat) (cutoff : Time)
    (r : AttemptRecord) : Prop :=
  r.finishedBefore cutoff = true ∧
    (proposal r.reservation.proposalId = .missing ∨
      r.reservation.attempt < newest r.reservation.proposalId)

section Loop
variable {proposal : String → ProposalFile} {newest : String → Nat} {cutoff : Time} {limit : Nat}
  {records kept : List AttemptRecord} {cache : List (String × Bool)} {dropped dropped' : Nat}

/-- The loop drops its first record, a droppable one, or keeps it: at its limit, or
because the record is not droppable. -/
theorem pruneLoop_cases {record : AttemptRecord} (hcache : CacheOk proposal cache)
    (h : pruneLoop proposal newest cutoff limit (record :: records) cache dropped =
      some (kept, dropped')) :
    ∃ cache', CacheOk proposal cache' ∧
      ((dropped < limit ∧ Droppable proposal newest cutoff record ∧
          pruneLoop proposal newest cutoff limit records cache' (dropped + 1) =
            some (kept, dropped')) ∨
        ∃ kept', kept = record :: kept' ∧
          (dropped < limit → ¬ Droppable proposal newest cutoff record) ∧
          pruneLoop proposal newest cutoff limit records cache' dropped =
            some (kept', dropped')) := by
  have hkept : ∀ {cache'}, (pruneLoop proposal newest cutoff limit records cache' dropped).map
      (fun answer => (record :: answer.1, answer.2)) = some (kept, dropped') →
      ∃ kept', kept = record :: kept' ∧
        pruneLoop proposal newest cutoff limit records cache' dropped = some (kept', dropped') := by
    intro cache' hrest
    obtain ⟨⟨kept', dropped₁⟩, hread, heq⟩ := Option.map_eq_some_iff.mp hrest
    cases heq
    exact ⟨kept', rfl, hread⟩
  rw [pruneLoop] at h
  split at h
  · next hskip =>
    obtain ⟨kept', rfl, hrest⟩ := hkept h
    refine ⟨cache, hcache, .inr ⟨kept', rfl, fun hlt hdroppable => ?_, hrest⟩⟩
    obtain hlimit | hunfinished := hskip
    · omega
    · rw [hdroppable.1] at hunfinished
      cases hunfinished
  · next hactive =>
    rw [not_or, Bool.not_eq_false] at hactive
    have hlt : dropped < limit := by omega
    split at h
    · next hnewer => exact ⟨cache, hcache, .inl ⟨hlt, ⟨hactive.2, .inr hnewer⟩, h⟩⟩
    · next hnewest =>
      split at h
      · cases h
      · next cache' hlookup =>
        obtain ⟨hfile, hcache'⟩ := lookUpProposal_spec hcache hlookup
        obtain ⟨kept', rfl, hrest⟩ := hkept h
        refine ⟨cache', hcache', .inr ⟨kept', rfl, fun _ hdroppable => ?_, hrest⟩⟩
        obtain hmissing | hnewer := hdroppable.2
        · rw [hfile] at hmissing
          cases hmissing
        · exact hnewest hnewer
      · next cache' hlookup =>
        obtain ⟨hfile, hcache'⟩ := lookUpProposal_spec hcache hlookup
        exact ⟨cache', hcache', .inl ⟨hlt, ⟨hactive.2, .inl hfile⟩, h⟩⟩

/-- The loop keeps records in place, drops only droppable ones, and drops all of
them as long as it is below its limit. -/
theorem pruneLoop_spec (hcache : CacheOk proposal cache)
    (h : pruneLoop proposal newest cutoff limit records cache dropped = some (kept, dropped')) :
    kept.Sublist records ∧ dropped' + kept.length = dropped + records.length ∧
      (∀ r ∈ records, r ∉ kept → Droppable proposal newest cutoff r) ∧
      (dropped' < limit → ∀ r ∈ kept, ¬ Droppable proposal newest cutoff r) := by
  induction records generalizing kept cache dropped with
  | nil =>
    rw [pruneLoop] at h
    cases h
    exact ⟨List.Sublist.refl _, rfl, fun r hr => absurd hr List.not_mem_nil,
      fun _ r hr => absurd hr List.not_mem_nil⟩
  | cons record rest ih =>
    obtain ⟨cache', hcache', ⟨-, hdroppable, hrest⟩ | ⟨kept', rfl, hnot, hrest⟩⟩ :=
      pruneLoop_cases hcache h
    · obtain ⟨hsub, hcount, honly, hall⟩ := ih hcache' hrest
      refine ⟨hsub.cons _, by rw [List.length_cons]; omega, ?_, hall⟩
      intro r hr hgone
      obtain rfl | hr := List.mem_cons.mp hr
      · exact hdroppable
      · exact honly r hr hgone
    · obtain ⟨hsub, hcount, honly, hall⟩ := ih hcache' hrest
      have hlen := hsub.length_le
      refine ⟨hsub.cons_cons _, by rw [List.length_cons, List.length_cons]; omega, ?_, ?_⟩
      · intro r hr hgone
        rw [List.mem_cons, not_or] at hgone
        obtain rfl | hr := List.mem_cons.mp hr
        · exact absurd rfl hgone.1
        · exact honly r hr hgone.2
      · -- what is dropped later is dropped below the limit too
        intro hlt r hr
        obtain rfl | hr := List.mem_cons.mp hr
        · exact hnot (by omega)
        · exact hall hlt r hr

/-- The loop stops at its limit. -/
theorem pruneLoop_le (hcache : CacheOk proposal cache) (hle : dropped ≤ limit)
    (h : pruneLoop proposal newest cutoff limit records cache dropped = some (kept, dropped')) :
    dropped' ≤ limit := by
  induction records generalizing kept cache dropped with
  | nil =>
    rw [pruneLoop] at h
    cases h
    exact hle
  | cons record rest ih =>
    obtain ⟨cache', hcache', ⟨hlt, -, hrest⟩ | ⟨kept', -, -, hrest⟩⟩ := pruneLoop_cases hcache h
    · exact ih hcache' hlt hrest
    · exact ih hcache' hle hrest

end Loop

theorem pruneLoop_ne_none {proposal : String → ProposalFile} {newest : String → Nat}
    {cutoff : Time} {limit : Nat} (hread : ∀ p, proposal p ≠ .unreadable)
    (records : List AttemptRecord) (cache : List (String × Bool)) (dropped : Nat) :
    pruneLoop proposal newest cutoff limit records cache dropped ≠ none := by
  induction records generalizing cache dropped with
  | nil => exact Option.some_ne_none _
  | cons record rest ih =>
    rw [pruneLoop]
    split
    · rw [Ne, Option.map_eq_none_iff]
      exact ih cache dropped
    · split
      · exact ih cache (dropped + 1)
      · split
        · rename_i hlookup
          rw [lookUpProposal] at hlookup
          split at hlookup
          · cases hlookup
          · cases hfile : proposal record.reservation.proposalId with
            | present => rw [hfile] at hlookup; cases hlookup
            | missing => rw [hfile] at hlookup; cases hlookup
            | unreadable => exact absurd hfile (hread _)
        · rw [Ne, Option.map_eq_none_iff]
          exact ih _ dropped
        · exact ih _ (dropped + 1)

namespace AccountFiles

def Held (files : AccountFiles) (r : AttemptRecord) : Prop :=
  ∃ records, files.executions = some records ∧ r ∈ records

def size (files : AccountFiles) : Nat := (files.executions.getD []).length

def newest (files : AccountFiles) : String → Nat := newestAttempt (files.executions.getD [])

/-- The account's files can be read and its records written. -/
def Sound (files : AccountFiles) (writable : Bool) : Prop :=
  files.executions ≠ none ∧ (∀ p, files.proposal p ≠ .unreadable) ∧ writable = true

/-- One account's part of a call. -/
structure Pruned (files files' : AccountFiles) (cutoff : Time) (cutShort : Prop) : Prop where
  proposal : files'.proposal = files.proposal
  readable : files.executions ≠ none → files'.executions ≠ none
  kept : ∀ {r}, files'.Held r → files.Held r
  removed : ∀ {r}, files.Held r → ¬ files'.Held r →
    Droppable files.proposal files.newest cutoff r
  complete : ∀ {r}, ¬ cutShort → files'.Held r → ¬ Droppable files.proposal files.newest cutoff r

theorem Pruned.refl {files : AccountFiles} {cutoff : Time} {cutShort : Prop} (h : cutShort) :
    files.Pruned files cutoff cutShort :=
  ⟨rfl, id, id, fun hr hgone => absurd hr hgone, fun hnot => absurd h hnot⟩

theorem Pruned.mono {files files' : AccountFiles} {cutoff : Time} {p q : Prop}
    (h : files.Pruned files' cutoff p) (hpq : p → q) : files.Pruned files' cutoff q :=
  ⟨h.proposal, h.readable, h.kept, h.removed, fun hnot => h.complete (mt hpq hnot)⟩

end AccountFiles

theorem pruneAccountExecutions_spec {files files' : AccountFiles} {writable : Bool} {cutoff : Time}
    {limit count : Nat}
    (h : pruneAccountExecutions files writable cutoff limit = some (count, files')) :
    files.Pruned files' cutoff (limit ≤ count) := by
  rw [pruneAccountExecutions] at h
  cases hrecords : files.executions with
  | none => rw [hrecords] at h; cases h
  | some records =>
    rw [hrecords] at h
    simp only [Option.bind_eq_bind, Option.bind_some] at h
    obtain ⟨⟨kept, dropped⟩, hloop, h⟩ := Option.bind_eq_some_iff.mp h
    obtain ⟨hsub, hlength, honly, hall⟩ := pruneLoop_spec .nil hloop
    have hnewest : files.newest = newestAttempt records := by
      rw [AccountFiles.newest, hrecords]
      rfl
    have hheld : ∀ {r}, files.Held r ↔ r ∈ records := by
      intro r
      rw [AccountFiles.Held, hrecords]
      simp
    rw [← hnewest] at honly hall
    dsimp only at h
    split at h
    · split at h
      · cases h
        have hheld' : ∀ {r}, (files.writeExecutions kept).Held r ↔
            r ∈ kept := by
          intro r
          simp [AccountFiles.Held, AccountFiles.writeExecutions]
        refine ⟨rfl, fun _ => Option.some_ne_none _, fun hr => hheld.mpr (hsub.subset (hheld'.mp hr)), ?_, ?_⟩
        · intro r hr hgone
          exact honly r (hheld.mp hr) fun hkept => hgone (hheld'.mpr hkept)
        · intro r hcut hr
          exact hall (Nat.not_le.mp hcut) r (hheld'.mp hr)
      · cases h
    · rename_i hzero
      cases h
      have hkept : kept = records := hsub.eq_of_length (by omega)
      refine ⟨rfl, id, id, fun hr hgone => absurd hr hgone, ?_⟩
      intro r hcut hr
      exact hall (by omega) r (hkept ▸ hheld.mp hr)

theorem pruneAccountExecutions_le {files files' : AccountFiles} {writable : Bool}
    {cutoff : Time} {limit count : Nat}
    (h : pruneAccountExecutions files writable cutoff limit = some (count, files')) :
    count ≤ limit := by
  rw [pruneAccountExecutions] at h
  obtain ⟨records, hrecords, h⟩ := Option.bind_eq_some_iff.mp h
  obtain ⟨⟨kept, dropped⟩, hloop, h⟩ := Option.bind_eq_some_iff.mp h
  have hle := pruneLoop_le .nil (Nat.zero_le limit) hloop
  dsimp only at h
  split at h
  · split at h
    · cases h
      exact hle
    · cases h
  · cases h
    exact Nat.zero_le limit

theorem pruneAccountExecutions_size {files files' : AccountFiles} {writable : Bool}
    {cutoff : Time} {limit count : Nat}
    (h : pruneAccountExecutions files writable cutoff limit = some (count, files')) :
    count + files'.size = files.size := by
  rw [pruneAccountExecutions] at h
  obtain ⟨records, hrecords, h⟩ := Option.bind_eq_some_iff.mp h
  obtain ⟨⟨kept, dropped⟩, hloop, h⟩ := Option.bind_eq_some_iff.mp h
  obtain ⟨-, hlength, -⟩ := pruneLoop_spec .nil hloop
  dsimp only at h
  split at h
  · split at h
    · cases h
      rw [AccountFiles.size, AccountFiles.size, hrecords, AccountFiles.writeExecutions,
        Option.getD_some, Option.getD_some]
      omega
    · cases h
  · cases h
    omega

theorem pruneAccountExecutions_ne_none {files : AccountFiles} {writable : Bool} {cutoff : Time}
    {limit : Nat} (h : files.Sound writable) :
    pruneAccountExecutions files writable cutoff limit ≠ none := by
  obtain ⟨hrecords, hread, rfl⟩ := h
  obtain ⟨records, hrecords⟩ := Option.ne_none_iff_exists'.mp hrecords
  obtain ⟨⟨kept, dropped⟩, hloop⟩ :=
    Option.ne_none_iff_exists'.mp (pruneLoop_ne_none hread records [] 0)
  rw [pruneAccountExecutions, hrecords]
  simp only [Option.bind_eq_bind, Option.bind_some]
  rw [hloop]
  simp only [Option.bind_some]
  split
  · exact Option.some_ne_none _
  · exact Option.some_ne_none _

/-- What the loop over the accounts does to each of them. -/
theorem pruneAccounts_spec (writable : String → Bool) (cutoff : Time) (limit : Nat)
    (accounts : List (String × AccountFiles)) (pruned : Nat) :
    let total := (pruneAccounts writable cutoff limit accounts pruned).1
    let accounts' := (pruneAccounts writable cutoff limit accounts pruned).2
    pruned ≤ total ∧
      List.Forall₂ (fun e e' => e'.1 = e.1 ∧
        e.2.Pruned e'.2 cutoff (limit ≤ total ∨ ¬ e.2.Sound (writable e.1))) accounts accounts' := by
  induction accounts generalizing pruned with
  | nil => exact ⟨Nat.le_refl _, .nil⟩
  | cons first rest ih =>
    obtain ⟨accountId, files⟩ := first
    rw [pruneAccounts]
    split
    · rename_i hlimit
      refine ⟨Nat.le_refl _, ?_⟩
      exact List.forall₂_same.mpr fun e _ => ⟨rfl, .refl (.inl hlimit)⟩
    · rename_i hlimit
      split
      · rename_i count files' hprune
        obtain ⟨hle, hrest⟩ := ih (pruned + count)
        refine ⟨by dsimp only; omega, .cons ⟨rfl, ?_⟩ hrest⟩
        refine (pruneAccountExecutions_spec hprune).mono fun hcut => .inl ?_
        dsimp only
        omega
      · rename_i hprune
        obtain ⟨hle, hrest⟩ := ih pruned
        refine ⟨hle, .cons ⟨rfl, .refl (.inr fun hsound => ?_)⟩ hrest⟩
        exact pruneAccountExecutions_ne_none hsound hprune

theorem pruneAccounts_le (writable : String → Bool) (cutoff : Time) (limit : Nat)
    (accounts : List (String × AccountFiles)) {pruned : Nat} (hle : pruned ≤ limit) :
    (pruneAccounts writable cutoff limit accounts pruned).1 ≤ limit := by
  induction accounts generalizing pruned with
  | nil => exact hle
  | cons first rest ih =>
    obtain ⟨accountId, files⟩ := first
    rw [pruneAccounts]
    split
    · exact hle
    · split
      · rename_i count files' hprune
        have hcount := pruneAccountExecutions_le hprune
        exact ih (by omega)
      · exact ih hle

theorem pruneAccounts_size (writable : String → Bool) (cutoff : Time) (limit : Nat)
    (accounts : List (String × AccountFiles)) (pruned : Nat) :
    (pruneAccounts writable cutoff limit accounts pruned).1 +
        ((pruneAccounts writable cutoff limit accounts pruned).2.map fun e => e.2.size).sum =
      pruned + (accounts.map fun e => e.2.size).sum := by
  induction accounts generalizing pruned with
  | nil => rfl
  | cons first rest ih =>
    obtain ⟨accountId, files⟩ := first
    rw [pruneAccounts]
    split
    · rfl
    · split
      · rename_i count files' hprune
        have hcount := pruneAccountExecutions_size hprune
        have hrest := ih (pruned + count)
        simp only [List.map_cons, List.sum_cons] at hrest ⊢
        omega
      · have hrest := ih pruned
        simp only [List.map_cons, List.sum_cons] at hrest ⊢
        omega

theorem lt_newestAttempt {records : List AttemptRecord} {p : String} {n : Nat} :
    n < newestAttempt records p ↔
      ∃ r ∈ records, r.reservation.proposalId = p ∧ n < r.reservation.attempt := by
  constructor
  · intro h
    have hmem := foldr_max_mem (Nat.lt_of_le_of_lt (Nat.zero_le n) h)
    obtain ⟨r, hr, heq⟩ := List.mem_map.mp hmem
    rw [List.mem_filter, beq_iff_eq] at hr
    exact ⟨r, hr.1, hr.2, heq ▸ h⟩
  · rintro ⟨r, hr, hp, hlt⟩
    refine Nat.lt_of_lt_of_le hlt (le_foldr_max (List.mem_map.mpr ⟨r, ?_, rfl⟩))
    exact List.mem_filter.mpr ⟨hr, beq_iff_eq.mpr hp⟩

namespace Directory
variable {d : Directory}

theorem files_unique {a : String} {files files' : AccountFiles} (h : (a, files) ∈ d.accounts)
    (h' : (a, files') ∈ d.accounts) : files = files' :=
  congrArg Prod.snd (List.inj_on_of_nodup_map d.unique h h' rfl)

/-- Every account can be read and written. -/
def Sound (d : Directory) (writable : String → Bool) : Prop :=
  ∀ e ∈ d.accounts, e.2.Sound (writable e.1)

theorem holds_iff {a : String} {files : AccountFiles} (h : (a, files) ∈ d.accounts)
    {n : AttemptRecord} : d.Holds a n ↔ files.Held n := by
  constructor
  · rintro ⟨files', records, hmem, hrecords, hn⟩
    rw [files_unique h hmem]
    exact ⟨records, hrecords, hn⟩
  · rintro ⟨records, hrecords, hn⟩
    exact ⟨files, records, h, hrecords, hn⟩

theorem lt_newest {a : String} {files : AccountFiles} (h : (a, files) ∈ d.accounts)
    {r : AttemptRecord} : r.reservation.attempt < files.newest r.reservation.proposalId ↔
      ∃ n, d.Holds a n ∧ Supersedes n r := by
  rw [AccountFiles.newest, lt_newestAttempt]
  simp only [holds_iff h, AccountFiles.Held, Supersedes]
  cases files.executions with
  | none => simp
  | some records => simp

theorem prunable_of_droppable {a : String} {files : AccountFiles} (h : (a, files) ∈ d.accounts)
    {cutoff : Time} {r : AttemptRecord}
    (hdrop : Droppable files.proposal files.newest cutoff r) :
    Prunable d.Holds d.HasProposal cutoff a r := by
  obtain ⟨hfinished, hmissing | hnewer⟩ := hdrop
  · refine ⟨hfinished, .inl ?_⟩
    rintro ⟨files', hmem, hpresent⟩
    rw [← files_unique h hmem, hmissing] at hpresent
    cases hpresent
  · exact ⟨hfinished, .inr ((lt_newest h).mp hnewer)⟩

theorem droppable_of_prunable {a : String} {files : AccountFiles} (h : (a, files) ∈ d.accounts)
    {cutoff : Time} {r : AttemptRecord} (hread : ∀ p, files.proposal p ≠ .unreadable)
    (hprunable : Prunable d.Holds d.HasProposal cutoff a r) :
    Droppable files.proposal files.newest cutoff r := by
  obtain ⟨hfinished, hgone | hnewer⟩ := hprunable
  · refine ⟨hfinished, .inl ?_⟩
    cases hfile : files.proposal r.reservation.proposalId with
    | present => exact absurd ⟨files, h, hfile⟩ hgone
    | missing => rfl
    | unreadable => exact absurd hfile (hread _)
  · exact ⟨hfinished, .inr ((lt_newest h).mpr hnewer)⟩

theorem exists_of_mem_forall₂ {α β : Type} {R : α → β → Prop} {l : List α} {l' : List β}
    (h : List.Forall₂ R l l') {x : α} (hx : x ∈ l) : ∃ y ∈ l', R x y := by
  induction h with
  | nil => exact absurd hx List.not_mem_nil
  | cons hfirst hrest ih =>
    obtain rfl | hx := List.mem_cons.mp hx
    · exact ⟨_, List.mem_cons_self, hfirst⟩
    · obtain ⟨y, hy, hxy⟩ := ih hx
      exact ⟨y, List.mem_cons_of_mem _ hy, hxy⟩

variable {writable : String → Bool} {cutoff : Time} {limit : Nat}

/-- The files a call leaves in an account's place. -/
theorem pruned_accounts (d : Directory) (writable : String → Bool) (cutoff : Time) (limit : Nat) :
    (∀ a files, (a, files) ∈ d.accounts →
      ∃ files', (a, files') ∈ (d.pruneExecutionRecords writable cutoff limit).2.accounts ∧
        files.Pruned files' cutoff (limit ≤ (d.pruneExecutionRecords writable cutoff limit).1 ∨
          ¬ files.Sound (writable a))) ∧
    (∀ a files', (a, files') ∈ (d.pruneExecutionRecords writable cutoff limit).2.accounts →
      ∃ files, (a, files) ∈ d.accounts) := by
  obtain ⟨-, hall⟩ := pruneAccounts_spec writable cutoff limit d.accounts 0
  constructor
  · intro a files hmem
    obtain ⟨⟨a', files'⟩, hmem', rfl, hpruned⟩ := exists_of_mem_forall₂ hall hmem
    exact ⟨files', hmem', hpruned⟩
  · intro a files' hmem'
    obtain ⟨⟨a', files⟩, hmem, ha, -⟩ := exists_of_mem_forall₂ hall.flip hmem'
    cases ha
    exact ⟨files, hmem⟩

theorem pruneExecutionRecords_pruned (d : Directory) (writable : String → Bool) (cutoff : Time)
    (limit : Nat) :
    Pruned d.Holds (d.pruneExecutionRecords writable cutoff limit).2.Holds d.HasProposal cutoff
      (limit ≤ (d.pruneExecutionRecords writable cutoff limit).1 ∨ ¬ d.Sound writable) := by
  obtain ⟨hto, hfrom⟩ := pruned_accounts d writable cutoff limit
  set d' := (d.pruneExecutionRecords writable cutoff limit).2
  refine ⟨?_, ?_, ?_⟩
  · intro a r hr
    obtain ⟨files', records, hmem', -⟩ := id hr
    obtain ⟨files, hmem⟩ := hfrom a files' hmem'
    obtain ⟨files'', hmem'', hpruned⟩ := hto a files hmem
    exact (holds_iff hmem).mpr (hpruned.kept ((holds_iff hmem'').mp hr))
  · intro a r hr hgone
    obtain ⟨files, records, hmem, -⟩ := id hr
    obtain ⟨files', hmem', hpruned⟩ := hto a files hmem
    refine prunable_of_droppable hmem (hpruned.removed ((holds_iff hmem).mp hr) ?_)
    exact fun hheld => hgone ((holds_iff hmem').mpr hheld)
  · intro a r hcut hr hprunable
    obtain ⟨files', records, hmem', -⟩ := id hr
    obtain ⟨files, hmem⟩ := hfrom a files' hmem'
    obtain ⟨files'', hmem'', hpruned⟩ := hto a files hmem
    rw [not_or, not_not] at hcut
    have hsound : files.Sound (writable a) := hcut.2 _ hmem
    refine hpruned.complete ?_ ((holds_iff hmem'').mp hr)
      (droppable_of_prunable hmem hsound.2.1 hprunable)
    rw [not_or, not_not]
    exact ⟨hcut.1, hsound⟩

theorem pruneExecutionRecords_sound (d : Directory) (cutoff : Time) (limit : Nat)
    (h : d.Sound writable) : (d.pruneExecutionRecords writable cutoff limit).2.Sound writable := by
  obtain ⟨hto, hfrom⟩ := pruned_accounts d writable cutoff limit
  rintro ⟨a, files'⟩ hmem'
  obtain ⟨files, hmem⟩ := hfrom a files' hmem'
  obtain ⟨files'', hmem'', hpruned⟩ := hto a files hmem
  obtain ⟨hrecords, hread, hwrite⟩ := h _ hmem
  rw [files_unique hmem' hmem'']
  exact ⟨hpruned.readable hrecords, fun p => hpruned.proposal ▸ hread p, hwrite⟩

/-- The records of all accounts. -/
def size (d : Directory) : Nat := (d.accounts.map fun e => e.2.size).sum

theorem pruneExecutionRecords_size (d : Directory) (writable : String → Bool) (cutoff : Time)
    (limit : Nat) : (d.pruneExecutionRecords writable cutoff limit).1 +
      (d.pruneExecutionRecords writable cutoff limit).2.size = d.size :=
  (pruneAccounts_size writable cutoff limit d.accounts 0).trans (Nat.zero_add _)

/-- A call drops what it counts, and no more than its limit. -/
theorem pruneExecutionRecords_le (d : Directory) (writable : String → Bool) (cutoff : Time)
    (limit : Nat) : (d.pruneExecutionRecords writable cutoff limit).1 ≤ limit :=
  pruneAccounts_le writable cutoff limit d.accounts (Nat.zero_le limit)

theorem pruneExecutionRecords_hasProposal (d : Directory) (writable : String → Bool)
    (cutoff : Time) (limit : Nat) (a p : String) :
    (d.pruneExecutionRecords writable cutoff limit).2.HasProposal a p ↔ d.HasProposal a p := by
  obtain ⟨hto, hfrom⟩ := pruned_accounts d writable cutoff limit
  constructor
  · rintro ⟨files', hmem', hpresent⟩
    obtain ⟨files, hmem⟩ := hfrom a files' hmem'
    obtain ⟨files'', hmem'', hpruned⟩ := hto a files hmem
    rw [files_unique hmem' hmem'', hpruned.proposal] at hpresent
    exact ⟨files, hmem, hpresent⟩
  · rintro ⟨files, hmem, hpresent⟩
    obtain ⟨files', hmem', hpruned⟩ := hto a files hmem
    rw [← hpruned.proposal] at hpresent
    exact ⟨files', hmem', hpresent⟩

end Directory

end Guardian.Retention
