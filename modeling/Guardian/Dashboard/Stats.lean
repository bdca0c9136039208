import Guardian.Lib.Prefixes
import Mathlib.Data.UInt

/- The asset totals of a published snapshot (`dashboard/stats.rs`).

   A snapshot sorts its records by update time, newest first and records without one
   last, and stores the running aggregate after every block of records. A query with a
   cutoff starts from a stored aggregate and adds the rest of its prefix. What it
   returns is the aggregate of the records at or after the cutoff, in whatever order
   they were given (`assetsSince_eq`), and its coverage adds up (`coverage`).

   Times are instants. The counts of records and the fungible sums are numbers: the
   sums are held in 128 bits, which no list of 64-bit amounts that fits in memory
   exceeds. The non-fungible counts are words of 64 bits, which wrap. -/
namespace Guardian.Dashboard

open Prefixes

inductive SkipReason where
  | stateUnavailable
  | stateUndecodable
  deriving DecidableEq, Repr

/-- A `BTreeMap`, by its entries in the order of their keys. -/
structure Entries where
  list : List (String × UInt64)
  ascending : list.Pairwise fun a b => a.1 < b.1
  deriving DecidableEq, Repr

structure VaultSummary where
  fungible : Entries
  nonFungible : Entries
  deriving DecidableEq, Repr

inductive VaultOutcome where
  | decoded (vault : VaultSummary)
  | skipped (reason : SkipReason)
  | notApplicable
  deriving DecidableEq, Repr

/-- The fields of an `AccountStatsRecord` that order it and that it adds. -/
structure AccountStatsRecord where
  accountId : String
  updatedAt : Option Int
  vault : VaultOutcome
  deriving DecidableEq, Repr

structure AssetAggregate where
  eligible : Nat := 0
  covered : Nat := 0
  skipped : SkipReason → Option Nat := fun _ => none
  fungible : String → Option Nat := fun _ => none
  nonFungible : String → Option UInt64 := fun _ => none

namespace AssetAggregate

/-- `AssetAggregate::skipped_total`. -/
def skippedTotal (aggregate : AssetAggregate) : Nat :=
  ([SkipReason.stateUnavailable, SkipReason.stateUndecodable].filterMap aggregate.skipped).sum

/-- `AssetAggregate::add`. -/
def add (aggregate : AssetAggregate) (record : AccountStatsRecord) : AssetAggregate :=
  match record.vault with
  | .notApplicable => aggregate
  | .skipped reason =>
    { aggregate with
      eligible := aggregate.eligible + 1
      skipped := bump aggregate.skipped reason 1 }
  | .decoded vault =>
    { aggregate with
      eligible := aggregate.eligible + 1
      covered := aggregate.covered + 1
      fungible := bumpAll aggregate.fungible (vault.fungible.list.map fun e => (e.1, e.2.toNat))
      nonFungible := bumpAll aggregate.nonFungible vault.nonFungible.list }

/-- The aggregate of a list of records. -/
def ofRecords (records : List AccountStatsRecord) : AssetAggregate := records.foldl add {}

theorem add_comm (aggregate : AssetAggregate) (r r' : AccountStatsRecord) :
    (aggregate.add r).add r' = (aggregate.add r').add r := by
  obtain ⟨id, updated, vault⟩ := r
  obtain ⟨id', updated', vault'⟩ := r'
  cases vault <;> cases vault' <;> simp only [add, bump_comm, bumpAll_comm]

/-- An aggregate does not see the order of its records. -/
theorem ofRecords_perm {records records' : List AccountStatsRecord} (h : records.Perm records') :
    ofRecords records = ofRecords records' :=
  h.foldl_eq' (fun r _ r' _ aggregate => add_comm aggregate r r') {}

theorem skippedTotal_bump (skipped : SkipReason → Option Nat) (reason : SkipReason) :
    ([SkipReason.stateUnavailable, SkipReason.stateUndecodable].filterMap
        (bump skipped reason 1)).sum =
      ([SkipReason.stateUnavailable, SkipReason.stateUndecodable].filterMap skipped).sum + 1 := by
  cases reason <;>
    cases hu : skipped .stateUnavailable <;>
      cases hd : skipped .stateUndecodable <;>
        simp [bump, hu, hd] <;> omega

theorem coverage_add {aggregate : AssetAggregate} (record : AccountStatsRecord)
    (h : aggregate.covered + aggregate.skippedTotal = aggregate.eligible) :
    (aggregate.add record).covered + (aggregate.add record).skippedTotal =
      (aggregate.add record).eligible := by
  obtain ⟨id, updated, vault⟩ := record
  cases vault with
  | notApplicable => exact h
  | skipped reason =>
    have hone := skippedTotal_bump aggregate.skipped reason
    simp only [add, skippedTotal] at h ⊢
    omega
  | decoded vault =>
    simp only [add, skippedTotal] at h ⊢
    omega

/-- Every eligible record is covered or skipped for a reason. -/
theorem coverage (records : List AccountStatsRecord) :
    (ofRecords records).covered + (ofRecords records).skippedTotal =
      (ofRecords records).eligible := by
  have hkept : ∀ aggregate : AssetAggregate,
      aggregate.covered + aggregate.skippedTotal = aggregate.eligible →
      (records.foldl add aggregate).covered + (records.foldl add aggregate).skippedTotal =
        (records.foldl add aggregate).eligible := by
    induction records with
    | nil => exact fun _ h => h
    | cons record rest ih => exact fun aggregate h => ih (aggregate.add record) (coverage_add record h)
  exact hkept {} rfl

end AssetAggregate

/-! ## Snapshots -/

/-- `PREFIX_BLOCK`. -/
def prefixBlock : Nat := 256

/-- The order of the records: newest first, then by account. -/
def newestFirst (a b : AccountStatsRecord) : Ordering :=
  (compare b.updatedAt a.updatedAt).then (compare a.accountId b.accountId)

/-- `StatsSnapshot`, of its fields those of the asset totals. -/
structure StatsSnapshot where
  records : List AccountStatsRecord
  allAssets : AssetAggregate
  prefixes : List AssetAggregate

/-- `StatsSnapshot::new`. -/
def StatsSnapshot.new (records : List AccountStatsRecord) : StatsSnapshot :=
  let sorted := records.mergeSort fun a b => (newestFirst a b).isLE
  let folded := blockLoop prefixBlock AssetAggregate.add 0 {} [{}] sorted
  ⟨sorted, folded.1, folded.2⟩

/-- The records a cutoff selects. -/
def updatedSince (since : Int) (record : AccountStatsRecord) : Bool :=
  record.updatedAt.any fun ts => decide (since ≤ ts)

/-- `StatsSnapshot::assets_since`. Without a stored aggregate at the index it panics. -/
def StatsSnapshot.assetsSince (snapshot : StatsSnapshot) : Option Int → Option AssetAggregate
  | none => some snapshot.allAssets
  | some since => do
    let stop := partitionPoint (updatedSince since) snapshot.records
    let block := stop / prefixBlock
    let aggregate ← snapshot.prefixes[block]?
    return ((snapshot.records.take stop).drop (block * prefixBlock)).foldl AssetAggregate.add aggregate

/-- The records that count for a cutoff, or all of them without one. -/
def selected (records : List AccountStatsRecord) : Option Int → List AccountStatsRecord
  | none => records
  | some since => records.filter (updatedSince since)

theorem newestFirst_trans : Std.TransCmp newestFirst :=
  inferInstanceAs (Std.TransCmp (compareLex
    (fun a b : AccountStatsRecord => compareOn AccountStatsRecord.updatedAt b a)
    (compareOn AccountStatsRecord.accountId)))

theorem sorted_records (records : List AccountStatsRecord) :
    (StatsSnapshot.new records).records.Pairwise fun a b => (newestFirst a b).isLE = true := by
  have htrans := newestFirst_trans
  apply List.pairwise_mergeSort
  · intro a b c hab hbc
    exact htrans.isLE_trans hab hbc
  · intro a b
    have hswap : newestFirst a b = (newestFirst b a).swap := htrans.eq_swap
    rw [hswap]
    cases newestFirst b a <;> rfl

theorem perm_records (records : List AccountStatsRecord) :
    (StatsSnapshot.new records).records.Perm records :=
  List.mergeSort_perm records _

/-- What is sorted before a record the cutoff selects is selected: a record without a
    time is sorted after every record with one. -/
theorem updatedSince_of_isLE {since : Int} {a b : AccountStatsRecord}
    (hle : (newestFirst a b).isLE = true) (hb : updatedSince since b = true) :
    updatedSince since a = true := by
  have hfirst : (compare b.updatedAt a.updatedAt).isLE = true := by
    rw [newestFirst] at hle
    cases hcmp : compare b.updatedAt a.updatedAt with
    | lt => rfl
    | eq => rfl
    | gt =>
      rw [hcmp] at hle
      cases hle
  unfold updatedSince at hb ⊢
  cases hbt : b.updatedAt with
  | none =>
    rw [hbt] at hb
    cases hb
  | some tb =>
    rw [hbt, Option.any_some, decide_eq_true_eq] at hb
    cases hat : a.updatedAt with
    | none =>
      rw [hbt, hat] at hfirst
      cases hfirst
    | some ta =>
      rw [hbt, hat] at hfirst
      have hle' : tb ≤ ta := Int.isLE_compare.mp hfirst
      rw [Option.any_some, decide_eq_true_eq]
      exact Int.le_trans hb hle'

theorem blocks_new (records : List AccountStatsRecord) :
    Blocks prefixBlock AssetAggregate.add {} (StatsSnapshot.new records).records
      (StatsSnapshot.new records).allAssets (StatsSnapshot.new records).prefixes :=
  Blocks.loop (by decide) _ Blocks.nil

/-- The aggregate a query returns is that of the records it selects, which are covered
    or skipped. -/
theorem assetsSince_eq (records : List AccountStatsRecord) (since : Option Int) :
    (StatsSnapshot.new records).assetsSince since =
        some (AssetAggregate.ofRecords (selected records since)) ∧
      (AssetAggregate.ofRecords (selected records since)).covered +
          (AssetAggregate.ofRecords (selected records since)).skippedTotal =
        (AssetAggregate.ofRecords (selected records since)).eligible := by
  refine ⟨?_, AssetAggregate.coverage _⟩
  have hblocks := blocks_new records
  have hperm := perm_records records
  cases since with
  | none =>
    have hall : (StatsSnapshot.new records).allAssets =
        AssetAggregate.ofRecords (StatsSnapshot.new records).records := hblocks.running_eq
    rw [StatsSnapshot.assetsSince, hall, AssetAggregate.ofRecords_perm hperm]
    rfl
  | some since =>
    have hsorted : (StatsSnapshot.new records).records.Pairwise fun a b =>
        updatedSince since b = true → updatedSince since a = true :=
      (sorted_records records).imp fun hle hb => updatedSince_of_isLE hle hb
    obtain ⟨htake, hstop⟩ := take_partitionPoint hsorted
    obtain ⟨copy, hcopy, hfold⟩ := hblocks.fold_prefix hstop
    have hfilter : ((StatsSnapshot.new records).records.filter (updatedSince since)).Perm
        (records.filter (updatedSince since)) := hperm.filter _
    rw [htake] at hfold
    rw [StatsSnapshot.assetsSince]
    simp only [hcopy, htake, Option.bind_eq_bind, Option.bind_some, Option.pure_def]
    rw [hfold]
    exact congrArg some (AssetAggregate.ofRecords_perm hfilter)

end Guardian.Dashboard
