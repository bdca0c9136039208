import Guardian.Retention.Sweep
import Mathlib.Data.List.Sort

/- Retention over whole runs and whole sweeps.

   A run interleaves reservations and prunes of any cutoff and limit with any
   other transaction, which leaves the attempt keys alone. The numbers a proposal
   hands out are those of a `Numbering.Ledger`.

   A single call of the two backends need not remove the same records: each stops
   at its limit, and they take the prunable attempts in different orders
   (`calls_cut_short_differ`). A call that is not cut short and a whole sweep do
   agree. -/
namespace Guardian.Retention

open Numbering

/-- A proposal of an account. -/
abbrev ProposalKey := String × String

/-- The attempt numbers a backend keeps of each proposal. -/
def ledgerOf (holds : Records) (proposals : String → String → Prop) : Ledger ProposalKey where
  kept s n := ∃ r, holds s.1 r ∧ r.reservation.proposalId = s.2 ∧ r.reservation.attempt = n
  live s := proposals s.1 s.2

/-- A prune is a collection of the ledger. -/
theorem Pruned.step {holds holds' : Records} {proposals proposals' : String → String → Prop}
    {cutoff : Time} {cutShort : Prop} (h : Pruned holds holds' proposals cutoff cutShort) :
    Step (ledgerOf holds proposals) (ledgerOf holds' proposals') none := by
  refine .collect ?_ ?_
  · rintro s n ⟨r, hr, hproposal, rfl⟩
    exact ⟨r, h.kept hr, hproposal, rfl⟩
  · rintro s n hlive ⟨r, hr, hproposal, rfl⟩ hgone
    have hgone' : ¬ holds' s.1 r := fun hr' => hgone ⟨r, hr', hproposal, rfl⟩
    obtain hno | ⟨n, hn, hsup⟩ := (h.removed hr hgone').2
    · rw [hproposal] at hno
      exact absurd hlive hno
    · exact ⟨n.reservation.attempt, hsup.2, n, hn, hsup.1.trans hproposal, rfl⟩

/-! ## Runs of the database -/

namespace Tables
variable {t t' : Tables}

def ledger (t : Tables) : Ledger ProposalKey := ledgerOf t.Holds t.HasProposal

theorem ledger_kept {s : ProposalKey} {n : Nat} :
    t.ledger.kept s n ↔ ⟨s.1, s.2, n⟩ ∈ t.reservations.map ReservationRow.key := by
  constructor
  · rintro ⟨r, hr, hproposal, rfl⟩
    obtain ⟨row, hrow, ha, rfl⟩ := holds_iff.mp hr
    refine List.mem_map.mpr ⟨row, hrow, ?_⟩
    rw [ReservationRow.key, ← ha, ← hproposal]
    rfl
  · intro h
    obtain ⟨row, hrow, hkey⟩ := List.mem_map.mp h
    rw [ReservationRow.key, AttemptKey.mk.injEq] at hkey
    exact ⟨t.recordOf row, holds_iff.mpr ⟨row, hrow, hkey.1, rfl⟩, hkey.2.1, hkey.2.2⟩

/-- One transaction, with the attempt it hands out. -/
inductive Step (t : Tables) : Option (ProposalKey × Nat) → Tables → Prop where
  | reserved {t' : Tables} {leaseCurrent : Bool} {accountId proposalId : String}
      {fence : LeaseFence} {leaseExpiresAt : Time} {attempt : Nat}
      (h : t.createExecutionReservation leaseCurrent accountId proposalId fence leaseExpiresAt =
        (.created attempt, t')) : Step t (some ((accountId, proposalId), attempt)) t'
  | pruned {t' : Tables} {locked : AttemptKey → Bool} {cutoff : Time} {limit count : Nat}
      (h : t.PruneExecutionRecords locked cutoff limit count t') : Step t none t'
  | other {t' : Tables}
      (h : t'.reservations.map ReservationRow.key = t.reservations.map ReservationRow.key) :
      Step t none t'

theorem created {leaseCurrent : Bool} {accountId proposalId : String} {fence : LeaseFence}
    {leaseExpiresAt : Time} {attempt : Nat}
    (h : t.createExecutionReservation leaseCurrent accountId proposalId fence leaseExpiresAt =
      (.created attempt, t')) :
    attempt = t.nextAttempt accountId proposalId ∧
      t'.reservations.map ReservationRow.key =
        t.reservations.map ReservationRow.key ++ [⟨accountId, proposalId, attempt⟩] := by
  rw [createExecutionReservation] at h
  split at h
  · split at h
    · cases h
    · split at h
      · cases h
      · split at h
        · cases h
          refine ⟨rfl, ?_⟩
          rw [List.map_append]
          rfl
        · cases h
  · cases h

theorem follows : Follows Step ledger := by
  intro t label t' h
  cases h with
  | @reserved _ leaseCurrent accountId proposalId _ _ attempt h =>
    obtain ⟨hattempt, hkeys⟩ := created h
    refine .issue ?_ ?_
    · intro m hm
      obtain ⟨row, hrow, hkey⟩ := List.mem_map.mp (ledger_kept.mp hm)
      rw [ReservationRow.key, AttemptKey.mk.injEq] at hkey
      have hlt := t.lt_nextAttempt hrow
      rw [hkey.1, hkey.2.1, hkey.2.2] at hlt
      rw [hattempt]
      exact hlt
    · rintro ⟨a, p⟩ m
      rw [ledger_kept, ledger_kept, hkeys, List.mem_append, List.mem_singleton,
        AttemptKey.mk.injEq, Prod.mk.injEq, and_assoc]
  | pruned h => exact h.pruned.step
  | other h =>
    refine .keep fun s n => ?_
    rw [ledger_kept, ledger_kept, h]

end Tables

/-! ## Runs of the filesystem -/

namespace Directory
variable {d d' : Directory}

def ledger (d : Directory) : Ledger ProposalKey := ledgerOf d.Holds d.HasProposal

/-- One call, with the attempt it hands out. -/
inductive Step (d : Directory) : Option (ProposalKey × Nat) → Directory → Prop where
  | reserved {d' : Directory} {leaseLive : Bool} {accountId proposalId : String}
      {fence : LeaseFence} {leaseExpiresAt : Time} {attempt : Nat}
      (h : d.createExecutionReservation leaseLive accountId proposalId fence leaseExpiresAt =
        some (.created attempt, d')) : Step d (some ((accountId, proposalId), attempt)) d'
  | pruned {writable : String → Bool} {cutoff : Time} {limit : Nat} :
      Step d none (d.pruneExecutionRecords writable cutoff limit).2
  | other {d' : Directory} (h : ∀ s n, d'.ledger.kept s n ↔ d.ledger.kept s n) : Step d none d'

theorem holds_setFiles {accountId a : String} {files old : AccountFiles} {r : AttemptRecord}
    (hmem : (accountId, old) ∈ d.accounts) :
    (d.setFiles accountId files).Holds a r ↔
      if a = accountId then files.Held r else d.Holds a r := by
  have hat : (accountId, files) ∈ (d.setFiles accountId files).accounts :=
    List.mem_map.mpr ⟨(accountId, old), hmem, if_pos rfl⟩
  by_cases ha : a = accountId
  · rw [if_pos ha, ha]
    exact holds_iff hat
  · rw [if_neg ha]
    constructor
    · rintro ⟨files', records, hmem', hrest⟩
      obtain ⟨⟨b, g⟩, hb, heq⟩ := List.mem_map.mp hmem'
      by_cases hb' : b = accountId
      · rw [if_pos hb'] at heq
        cases heq
        exact absurd rfl ha
      · rw [if_neg hb'] at heq
        cases heq
        exact ⟨files', records, hb, hrest⟩
    · rintro ⟨files', records, hmem', hrest⟩
      exact ⟨files', records, List.mem_map.mpr ⟨(a, files'), hmem', if_neg ha⟩, hrest⟩

theorem created {leaseLive : Bool} {accountId proposalId : String} {fence : LeaseFence}
    {leaseExpiresAt : Time} {attempt : Nat}
    (h : d.createExecutionReservation leaseLive accountId proposalId fence leaseExpiresAt =
      some (.created attempt, d')) :
    ∃ files records, (accountId, files) ∈ d.accounts ∧ files.executions = some records ∧
      attempt = newestAttempt records proposalId + 1 ∧
      d' = d.setFiles accountId (files.writeExecutions
        (records ++ [.accepted proposalId attempt fence leaseExpiresAt])) := by
  rw [createExecutionReservation] at h
  split at h
  · split at h
    · cases h
    · rename_i files hfiles
      split at h
      · cases h
      · rename_i records hrecords
        split at h
        · cases h
        · split at h
          · cases h
          · split at h
            · cases h
            · cases h
            · cases h
              exact ⟨files, records, (Tables.lookup_eq_some d.unique).mp hfiles, hrecords, rfl, rfl⟩
  · cases h

theorem follows : Follows Step ledger := by
  intro d label d' h
  cases h with
  | @reserved _ leaseLive accountId proposalId fence leaseExpiresAt attempt h =>
    obtain ⟨files, records, hmem, hrecords, hattempt, rfl⟩ := created h
    have hheld : ∀ r, d.Holds accountId r ↔ r ∈ records := by
      intro r
      rw [holds_iff hmem, AccountFiles.Held, hrecords]
      simp
    refine .issue ?_ ?_
    · rintro m ⟨r, hr, hproposal, rfl⟩
      have hle : r.reservation.attempt ≤ newestAttempt records proposalId := by
        refine le_foldr_max (List.mem_map.mpr ⟨r, List.mem_filter.mpr ⟨(hheld r).mp hr, ?_⟩, rfl⟩)
        exact beq_iff_eq.mpr hproposal
      omega
    · rintro ⟨a, p⟩ m
      have hafter : ∀ r, (d.setFiles accountId (files.writeExecutions (records ++
          [.accepted proposalId attempt fence leaseExpiresAt]))).Holds a r ↔
          d.Holds a r ∨ (a = accountId ∧
            r = .accepted proposalId attempt fence leaseExpiresAt) := by
        intro r
        rw [holds_setFiles hmem]
        by_cases ha : a = accountId
        · subst ha
          rw [if_pos rfl, hheld r]
          simp [AccountFiles.Held, AccountFiles.writeExecutions]
        · simp [ha]
      constructor
      · rintro ⟨r, hr, hproposal, rfl⟩
        obtain hr | ⟨rfl, rfl⟩ := (hafter r).mp hr
        · exact .inl ⟨r, hr, hproposal, rfl⟩
        · exact .inr ⟨Prod.ext rfl hproposal.symm, rfl⟩
      · rintro (⟨r, hr, hproposal, rfl⟩ | ⟨hs, rfl⟩)
        · exact ⟨r, (hafter r).mpr (.inl hr), hproposal, rfl⟩
        · cases hs
          exact ⟨_, (hafter _).mpr (.inr ⟨rfl, rfl⟩), rfl, rfl⟩
  | pruned => exact (pruneExecutionRecords_pruned d _ _ _).step
  | other h => exact .keep h

end Directory

/-! ## Whole sweeps -/

section Sweeps
variable {σ : Type} {call : σ → Nat → σ → Prop} {batch : Nat} {holds : σ → Records}
  {proposals : σ → String → String → Prop} {cutoff : Time} {sound : σ → Prop}

/-- What a sweep relies on of each call. -/
structure Calls (call : σ → Nat → σ → Prop) (batch : Nat) (holds : σ → Records)
    (proposals : σ → String → String → Prop) (cutoff : Time) (sound : σ → Prop)
    (size : σ → Nat) : Prop where
  keepsSound : ∀ {s n s'}, sound s → call s n s' → sound s'
  prunes : ∀ {s n s'}, sound s → call s n s' →
    Pruned (holds s) (holds s') (proposals s) cutoff (batch ≤ n)
  keepsProposals : ∀ {s n s'}, call s n s' → ∀ a p, proposals s' a p ↔ proposals s a p
  bounded : ∀ s a, ∃ bound, ∀ r, holds s a r → r.reservation.attempt ≤ bound
  answers : ∀ s, ∃ n s', call s n s'
  shrinks : ∀ {s n s'}, call s n s' → n + size s' = size s

variable {size : σ → Nat}

theorem Prunable.congr {h : Records} {p p' : String → String → Prop} {cutoff : Time} {a : String}
    {r : AttemptRecord} (hp : ∀ a q, p' a q ↔ p a q) :
    Prunable h p' cutoff a r ↔ Prunable h p cutoff a r := by
  rw [Prunable, Prunable, hp]

/-- A sweep leaves the records that were not prunable when it began. -/
theorem Calls.sweep (hcalls : Calls call batch holds proposals cutoff sound size) {s s' : σ}
    {n : Nat} (hsound : sound s) (h : Sweep call batch s n s') :
    (∀ a r, holds s' a r ↔ holds s a r ∧ ¬ Prunable (holds s) (proposals s) cutoff a r) ∧
      ∀ a p, proposals s' a p ↔ proposals s a p := by
  induction h with
  | short hcall hshort =>
    have hpruned := hcalls.prunes hsound hcall
    refine ⟨fun a r => ⟨fun hr => ⟨hpruned.kept hr, hpruned.complete (by omega) hr⟩, ?_⟩,
      hcalls.keepsProposals hcall⟩
    rintro ⟨hr, hnot⟩
    by_contra hgone
    exact hnot (hpruned.removed hr hgone)
  | full hcall hfull rest ih =>
    have hpruned := hcalls.prunes hsound hcall
    have hproposals := hcalls.keepsProposals hcall
    obtain ⟨hrecords, hproposals'⟩ := ih (hcalls.keepsSound hsound hcall)
    refine ⟨fun a r => ?_, fun a p => (hproposals' a p).trans (hproposals a p)⟩
    obtain ⟨bound, hbound⟩ := hcalls.bounded _ a
    rw [hrecords, Prunable.congr hproposals, hpruned.prunable_iff hbound]
    constructor
    · rintro ⟨hr, hnot⟩
      exact ⟨hpruned.kept hr, hnot⟩
    · rintro ⟨hr, hnot⟩
      refine ⟨?_, hnot⟩
      by_contra hgone
      exact hnot (hpruned.removed hr hgone)

/-- A sweep ends: a full batch leaves fewer records. -/
theorem Calls.sweep_ends (hcalls : Calls call batch holds proposals cutoff sound size)
    (hbatch : 0 < batch) (s : σ) : ∃ n s', Sweep call batch s n s' := by
  induction hsize : size s using Nat.strong_induction_on generalizing s with
  | _ k ih =>
    obtain ⟨n, s', hcall⟩ := hcalls.answers s
    have hless := hcalls.shrinks hcall
    by_cases hshort : n < batch
    · exact ⟨n, s', .short hcall hshort⟩
    · obtain ⟨m, s'', hrest⟩ := ih (size s') (by omega) s' rfl
      exact ⟨n + m, s'', .full hcall (by omega) hrest⟩

end Sweeps

/-- A call of the database with no other sweep running. -/
def Tables.call (cutoff : Time) (limit : Nat) (t : Tables) (count : Nat) (t' : Tables) : Prop :=
  t.PruneExecutionRecords (fun _ => false) cutoff limit count t'

/-- A call of the filesystem whose writes succeed. -/
def Directory.call (cutoff : Time) (limit : Nat) (d : Directory) (count : Nat) (d' : Directory) :
    Prop :=
  d.pruneExecutionRecords (fun _ => true) cutoff limit = (count, d')

theorem Tables.selects_exists (t : Tables) (locked : AttemptKey → Bool) (cutoff : Time)
    (limit : Nat) : ∃ attempts, t.Selects locked cutoff limit attempts := by
  let older (x y : AttemptKey × Time) : Prop := x.2 ≤ y.2
  have : Std.Total older := ⟨fun x y => Nat.le_total x.2 y.2⟩
  have : IsTrans (AttemptKey × Time) older := ⟨fun _ _ _ => Nat.le_trans⟩
  have : DecidableRel older := fun x y => inferInstanceAs (Decidable (x.2 ≤ y.2))
  exact ⟨_, (t.prunableAttempts locked cutoff).insertionSort older,
    List.perm_insertionSort older _, List.pairwise_insertionSort older _, rfl⟩

theorem Tables.calls (cutoff : Time) (batch : Nat) :
    Calls (Tables.call cutoff batch) batch Tables.Holds Tables.HasProposal cutoff
      (fun _ => True) (fun t => t.reservations.length) where
  keepsSound := fun _ _ => trivial
  prunes := by
    intro t n t' _ h
    have hpruned := Tables.PruneExecutionRecords.pruned h
    refine ⟨hpruned.kept, hpruned.removed, fun hcut => hpruned.complete ?_⟩
    rintro (hle | ⟨key, hkey⟩)
    · exact hcut hle
    · cases hkey
  keepsProposals := by
    intro t n t' h a p
    rw [Tables.PruneExecutionRecords.hasProposal h]
  bounded := by
    intro t a
    refine ⟨(t.reservations.map (·.reservation.attempt)).foldr max 0, fun r hr => ?_⟩
    exact le_foldr_max (List.mem_map.mpr ⟨_, hr.1, rfl⟩)
  answers := by
    intro t
    obtain ⟨attempts, hselects⟩ := t.selects_exists (fun _ => false) cutoff batch
    exact ⟨_, _, attempts, hselects, rfl, rfl⟩
  shrinks := fun h => (Tables.PruneExecutionRecords.count_le h).2

theorem Directory.calls (cutoff : Time) (batch : Nat) :
    Calls (Directory.call cutoff batch) batch Directory.Holds Directory.HasProposal cutoff
      (fun d => d.Sound fun _ => true) Directory.size where
  keepsSound := by
    intro d n d' hsound h
    rw [Directory.call] at h
    have hd' := d.pruneExecutionRecords_sound cutoff batch hsound
    rwa [h] at hd'
  prunes := by
    intro d n d' hsound h
    rw [Directory.call] at h
    have hpruned := d.pruneExecutionRecords_pruned (fun _ => true) cutoff batch
    rw [h] at hpruned
    refine ⟨hpruned.kept, hpruned.removed, fun hcut => hpruned.complete ?_⟩
    rintro (hle | hunsound)
    · exact hcut hle
    · exact hunsound hsound
  keepsProposals := by
    intro d n d' h a p
    rw [Directory.call] at h
    have hproposals := d.pruneExecutionRecords_hasProposal (fun _ => true) cutoff batch a p
    rwa [h] at hproposals
  bounded := by
    intro d a
    by_cases ha : ∃ files, (a, files) ∈ d.accounts
    · obtain ⟨files, hmem⟩ := ha
      refine ⟨((files.executions.getD []).map (·.reservation.attempt)).foldr max 0, fun r hr => ?_⟩
      obtain ⟨records, hrecords, hr⟩ := (Directory.holds_iff hmem).mp hr
      rw [hrecords]
      exact le_foldr_max (List.mem_map.mpr ⟨r, hr, rfl⟩)
    · refine ⟨0, fun r hr => ?_⟩
      obtain ⟨files, -, hmem, -⟩ := hr
      exact absurd ⟨files, hmem⟩ ha
  answers := fun d => ⟨_, _, rfl⟩
  shrinks := by
    intro d n d' h
    rw [Directory.call] at h
    have hsize := d.pruneExecutionRecords_size (fun _ => true) cutoff batch
    rwa [h] at hsize

/-! ## The two backends -/

/-- Both backends hold the same records and proposals. -/
structure Agree (t : Tables) (d : Directory) : Prop where
  records : ∀ a r, t.Holds a r ↔ d.Holds a r
  proposals : ∀ a p, t.HasProposal a p ↔ d.HasProposal a p

theorem Agree.prunable {t : Tables} {d : Directory} (h : Agree t d) {cutoff : Time} {a : String}
    {r : AttemptRecord} : Prunable t.Holds t.HasProposal cutoff a r ↔
      Prunable d.Holds d.HasProposal cutoff a r := by
  have hrecords : t.Holds = d.Holds := funext fun a => funext fun r => propext (h.records a r)
  rw [hrecords]
  exact Prunable.congr h.proposals

theorem Agree.sweep {t t' : Tables} {d d' : Directory} (h : Agree t d)
    (hsound : d.Sound fun _ => true) {cutoff : Time} {batch n m : Nat}
    (ht : Sweep (Tables.call cutoff batch) batch t n t')
    (hd : Sweep (Directory.call cutoff batch) batch d m d') : Agree t' d' := by
  obtain ⟨htr, htp⟩ := (Tables.calls cutoff batch).sweep trivial ht
  obtain ⟨hdr, hdp⟩ := (Directory.calls cutoff batch).sweep hsound hd
  constructor
  · intro a r
    rw [htr, hdr, h.records, h.prunable]
  · intro a p
    rw [htp, hdp, h.proposals]

/-- **Retention of execution records.** In either backend, whatever the cutoff
and the limit: a prune keeps every active attempt and the newest attempt of every
proposal that is still there, and removes only prunable records, which it counts,
and no more than its limit; the attempt numbers a proposal hands out increase as
long as it is there, through any prunes, reservations and other writes; and from
the same records, two calls that are not cut short by their limit, and two whole
sweeps, which always end, remove the same records. -/
theorem retention_keeps_and_agrees :
    (∀ (t t' : Tables) locked cutoff limit count,
      t.PruneExecutionRecords locked cutoff limit count t' →
        (∀ a r, t.Holds a r →
          (r.reservation.isActive = true ∨ (t.HasProposal a r.reservation.proposalId ∧
            ∀ n, t.Holds a n → ¬ Supersedes n r)) → t'.Holds a r) ∧
        (∀ a r, t.Holds a r → ¬ t'.Holds a r → Prunable t.Holds t.HasProposal cutoff a r) ∧
        count + t'.reservations.length = t.reservations.length ∧ count ≤ limit) ∧
    (∀ (d d' : Directory) writable cutoff limit count,
      d.pruneExecutionRecords writable cutoff limit = (count, d') →
        (∀ a r, d.Holds a r →
          (r.reservation.isActive = true ∨ (d.HasProposal a r.reservation.proposalId ∧
            ∀ n, d.Holds a n → ¬ Supersedes n r)) → d'.Holds a r) ∧
        (∀ a r, d.Holds a r → ¬ d'.Holds a r → Prunable d.Holds d.HasProposal cutoff a r) ∧
        count + d'.size = d.size ∧ count ≤ limit) ∧
    (∀ (s : ProposalKey) (t t' : Tables) handedOut,
      Run Tables.Step (fun t => t.ledger.live) s t handedOut t' →
        handedOut.Pairwise (· < ·)) ∧
    (∀ (s : ProposalKey) (d d' : Directory) handedOut,
      Run Directory.Step (fun d => d.ledger.live) s d handedOut d' →
        handedOut.Pairwise (· < ·)) ∧
    (∀ (t : Tables) (d : Directory), Agree t d → (d.Sound fun _ => true) → ∀ cutoff limit,
      (∀ n m t' d', Tables.call cutoff limit t n t' → Directory.call cutoff limit d m d' →
        n < limit → m < limit → Agree t' d') ∧
      (0 < limit →
        (∃ n t', Sweep (Tables.call cutoff limit) limit t n t') ∧
        (∃ m d', Sweep (Directory.call cutoff limit) limit d m d') ∧
        ∀ n m t' d', Sweep (Tables.call cutoff limit) limit t n t' →
          Sweep (Directory.call cutoff limit) limit d m d' → Agree t' d')) := by
  refine ⟨?_, ?_, ?_, ?_, ?_⟩
  · intro t t' locked cutoff limit count h
    refine ⟨?_, fun a r hr hgone => h.pruned.removed hr hgone, h.count_le.2, h.count_le.1⟩
    rintro a r hr (hactive | ⟨hproposal, hnewest⟩)
    · exact h.pruned.keeps_active hr hactive
    · exact h.pruned.keeps_newest hr hproposal hnewest
  · intro d d' writable cutoff limit count h
    have hpruned := d.pruneExecutionRecords_pruned writable cutoff limit
    have hsize := d.pruneExecutionRecords_size writable cutoff limit
    have hle := d.pruneExecutionRecords_le writable cutoff limit
    rw [h] at hpruned hsize hle
    refine ⟨?_, fun a r hr hgone => hpruned.removed hr hgone, hsize, hle⟩
    rintro a r hr (hactive | ⟨hproposal, hnewest⟩)
    · exact hpruned.keeps_active hr hactive
    · exact hpruned.keeps_newest hr hproposal hnewest
  · exact fun s t t' handedOut h => issued_increasing Tables.follows h
  · exact fun s d d' handedOut h => issued_increasing Directory.follows h
  · intro t d hagree hsound cutoff limit
    refine ⟨fun n m t' d' ht hd hn hm => ?_, fun hlimit => ⟨?_, ?_, ?_⟩⟩
    · exact hagree.sweep hsound (.short ht hn) (.short hd hm)
    · exact (Tables.calls cutoff limit).sweep_ends hlimit t
    · exact (Directory.calls cutoff limit).sweep_ends hlimit d
    · exact fun n m t' d' ht hd => hagree.sweep hsound ht hd

/-! ## A call that is cut short -/

namespace CutShort

/-- A finished attempt of a proposal that is gone. -/
def finished (resolvedAt : Time) : AttemptRecord where
  reservation := ⟨"proposal", 1, ⟨"execution:account", "holder", 1⟩, 0, .sent, some resolvedAt⟩
  evidence := none
  outcome := some ⟨.failed .expired, resolvedAt⟩

/-- The second account's attempt is the older one. -/
def tables : Tables where
  reservations := [⟨"a", (finished 20).reservation⟩, ⟨"b", (finished 10).reservation⟩]
  submissions := []
  outcomes := [(⟨"a", "proposal", 1⟩, ⟨.failed .expired, 20⟩),
    (⟨"b", "proposal", 1⟩, ⟨.failed .expired, 10⟩)]
  deltaProposals := []
  candidates := []
  uniqueReservations := by decide
  uniqueOutcomes := by decide

def files (resolvedAt : Time) : AccountFiles where
  executions := some [finished resolvedAt]
  proposal := fun _ => .missing
  hasPendingCandidate := false

def directory : Directory where
  accounts := [("a", files 20), ("b", files 10)]
  unique := by decide

theorem agree : Agree tables directory := by
  have htables : ∀ a r, tables.Holds a r ↔
      (a = "a" ∧ r = finished 20) ∨ (a = "b" ∧ r = finished 10) := by
    intro a r
    rw [Tables.holds_iff]
    constructor
    · rintro ⟨row, hrow, rfl, rfl⟩
      obtain rfl | hrow := List.mem_cons.mp hrow
      · exact .inl ⟨rfl, rfl⟩
      · rw [List.mem_singleton.mp hrow]
        exact .inr ⟨rfl, rfl⟩
    · rintro (⟨rfl, rfl⟩ | ⟨rfl, rfl⟩)
      · exact ⟨_, List.mem_cons_self, rfl, rfl⟩
      · exact ⟨_, List.mem_cons_of_mem _ List.mem_cons_self, rfl, rfl⟩
  have hdirectory : ∀ a r, directory.Holds a r ↔
      (a = "a" ∧ r = finished 20) ∨ (a = "b" ∧ r = finished 10) := by
    intro a r
    constructor
    · rintro ⟨files, records, hmem, hrecords, hr⟩
      obtain hmem | hmem := List.mem_cons.mp hmem
      · cases hmem
        cases hrecords
        exact .inl ⟨rfl, List.mem_singleton.mp hr⟩
      · cases List.mem_singleton.mp hmem
        cases hrecords
        exact .inr ⟨rfl, List.mem_singleton.mp hr⟩
    · rintro (⟨rfl, rfl⟩ | ⟨rfl, rfl⟩)
      · exact ⟨files 20, _, List.mem_cons_self, rfl, List.mem_singleton.mpr rfl⟩
      · exact ⟨files 10, _, List.mem_cons_of_mem _ List.mem_cons_self, rfl,
          List.mem_singleton.mpr rfl⟩
  constructor
  · intro a r
    rw [htables, hdirectory]
  · intro a p
    constructor
    · intro h
      cases h
    · rintro ⟨files', hmem, hpresent⟩
      obtain hmem | hmem := List.mem_cons.mp hmem
      · cases hmem
        cases hpresent
      · cases List.mem_singleton.mp hmem
        cases hpresent

end CutShort

/-- With a limit of one, the database removes the older attempt and the
filesystem the first account's, from the same records. -/
theorem calls_cut_short_differ :
    Agree CutShort.tables CutShort.directory ∧
      ∃ t' d', Tables.call 30 1 CutShort.tables 1 t' ∧
        Directory.call 30 1 CutShort.directory 1 d' ∧
        t'.Holds "a" (CutShort.finished 20) ∧ ¬ d'.Holds "a" (CutShort.finished 20) := by
  refine ⟨CutShort.agree, CutShort.tables.deleteAttempts [⟨"b", "proposal", 1⟩],
    (CutShort.directory.pruneExecutionRecords (fun _ => true) 30 1).2, ?_, rfl, ?_, ?_⟩
  · refine ⟨[⟨"b", "proposal", 1⟩],
      ⟨[(⟨"b", "proposal", 1⟩, 10), (⟨"a", "proposal", 1⟩, 20)], ?_, ?_, rfl⟩, rfl, ?_⟩
    · decide
    · decide
    · decide
  · exact ⟨by decide, rfl, rfl⟩
  · rintro ⟨files, records, hmem, hrecords, hr⟩
    have haccounts : (CutShort.directory.pruneExecutionRecords (fun _ => true) 30 1).2.accounts =
        [("a", { CutShort.files 20 with executions := some [] }), ("b", CutShort.files 10)] := rfl
    rw [haccounts] at hmem
    obtain hmem | hmem := List.mem_cons.mp hmem
    · cases hmem
      cases hrecords
      exact absurd hr List.not_mem_nil
    · have haccount : "a" = "b" := congrArg Prod.fst (List.mem_singleton.mp hmem)
      exact absurd haccount (by decide)

end Guardian.Retention
