import Guardian.Execution.Miden
import Guardian.Lib.Ledger
import Guardian.Signing.Messages

/- Accounts and their deltas: how a delta is applied to an account
   (`shared/src/account_delta.rs`), how the server applies a transaction summary
   (`apply_summary`) and how it merges the deltas of several
   (`merge_account_deltas`, `merge_vault_deltas` in `network/miden/mod.rs`).

   The parts of an account are types of the miden crates, `AccountTypes`, and
   the functions of these crates are `AccountLibrary`. An error of a function is
   `none`. -/
namespace Guardian

open Signing (Felt)

/-- Types of the miden crates. A non-fungible asset is its id. -/
structure AccountTypes where
  AccountId : Type
  NonFungible : Type
  Vault : Type
  Storage : Type
  StoragePatch : Type
  Code : Type
  CodePatch : Type
  InputNote : Type
  OutputNote : Type
  decAccountId : DecidableEq AccountId
  decNonFungible : DecidableEq NonFungible

attribute [instance] AccountTypes.decAccountId AccountTypes.decNonFungible

inductive AssetId (P : AccountTypes) where
  | fungible (faucetId : P.AccountId)
  | nonFungible (asset : P.NonFungible)
  deriving DecidableEq

inductive Asset (P : AccountTypes) where
  | fungible (faucetId : P.AccountId) (amount : Nat)
  | nonFungible (asset : P.NonFungible)

inductive AssetDeltaOperation where
  | add
  | remove
  deriving DecidableEq, Repr

structure AssetDelta (P : AccountTypes) where
  operation : AssetDeltaOperation
  asset : Asset P

def Asset.id {P : AccountTypes} : Asset P → AssetId P
  | .fungible faucetId _ => .fungible faucetId
  | .nonFungible asset => .nonFungible asset

/-- `AccountVaultDelta`: assets added or removed, one entry for each. -/
structure AccountVaultDelta (P : AccountTypes) where
  assets : List (AssetDelta P)
  distinct : (assets.map (·.asset.id)).Nodup

/-- `AccountVaultPatch`: what is left of each asset, later entries over earlier
ones. -/
abbrev AccountVaultPatch (P : AccountTypes) := List (AssetId P × Option (Asset P))

structure AccountDelta (P : AccountTypes) where
  id : P.AccountId
  storage : P.StoragePatch
  vault : AccountVaultDelta P
  code : P.CodePatch
  nonceDelta : Felt

structure AccountPatch (P : AccountTypes) where
  id : P.AccountId
  storage : P.StoragePatch
  vault : AccountVaultPatch P
  code : P.CodePatch
  finalNonce : Option Felt

structure Account (P : AccountTypes) where
  id : P.AccountId
  vault : P.Vault
  storage : P.Storage
  code : P.Code
  nonce : Felt

abbrev AccountTypes.Summary (P : AccountTypes) : Type :=
  TransactionSummary (AccountDelta P) P.InputNote P.OutputNote

/-- The functions of the miden crates and the codecs. -/
structure AccountLibrary (P : AccountTypes) where
  /-- `FungibleAsset::MAX_AMOUNT`. -/
  maxAmount : Nat
  emptyVault : P.Vault
  vaultAssets : P.Vault → List (Asset P)
  /-- `add_asset`: what is held of the asset then. -/
  addAsset : P.Vault → Asset P → Option (Asset P × P.Vault)
  /-- `remove_asset`: what is left of the asset, if something is. -/
  removeAsset : P.Vault → Asset P → Option (Option (Asset P) × P.Vault)
  getItem : P.Storage → String → Option Word
  getMapItem : P.Storage → String → Word → Option Word
  /-- `AccountStoragePatch::from_entries` over the slots of a storage. -/
  patchFromSlots : P.Storage → Option P.StoragePatch
  /-- `AccountStoragePatch::from_entries` over updates of single map entries. -/
  patchFromEntries : List (String × Word × Word) → Option P.StoragePatch
  emptyStoragePatch : P.StoragePatch
  storagePatchIsEmpty : P.StoragePatch → Bool
  mergeStorage : P.StoragePatch → P.StoragePatch → Option P.StoragePatch
  /-- What a map entry is after the patch, where the patch writes it. -/
  patchedEntry : P.StoragePatch → String → Word → Option (Option Word)
  /-- `AccountCodePatch::new` of a code. -/
  codePatch : P.Code → P.CodePatch
  codePatchIsEmpty : P.CodePatch → Bool
  mergeCode : P.CodePatch → P.CodePatch → P.CodePatch
  /-- Whether `AccountDelta::new` and `AccountPatch::new` accept their parts. -/
  acceptsDelta : AccountDelta P → Bool
  acceptsPatch : AccountPatch P → Bool
  deltaIsEmpty : AccountDelta P → Bool
  applyPatch : Account P → AccountPatch P → Option (Account P)
  patchToNewAccount : AccountPatch P → Option (Account P)
  deltaToNewAccount : AccountDelta P → Option (Account P)
  commitment : Account P → Word
  /-- Whether `InputNotes::new` and `RawOutputNotes::new` accept the notes. -/
  acceptsInputNotes : List P.InputNote → Bool
  acceptsOutputNotes : List P.OutputNote → Bool
  summaryCommitment : P.Summary → Word
  summaryFromJson : Payload → Option P.Summary
  summaryToJson : P.Summary → Payload
  /-- `payload.get("tx_summary")`. -/
  txSummaryField : Payload → Option Payload
  wordFromHex : String → Option Word

namespace Account
variable {P : AccountTypes} (L : AccountLibrary P)

/-- `Account::is_new`. -/
def isNew (account : Account P) : Bool := account.nonce.val == 0

/-- `multisig_threshold_config_slot`. -/
def thresholdConfigSlot : String := "miden::standards::auth::multisig::threshold_config"

/-- `has_multisig_auth`. -/
def hasMultisigAuth (account : Account P) : Bool :=
  (L.getItem account.storage thresholdConfigSlot).isSome

end Account

/-! ## Applying a delta -/

section Apply
variable {P : AccountTypes} (L : AccountLibrary P)

namespace AccountVaultDelta

def addedAssets (delta : AccountVaultDelta P) : List (Asset P) :=
  (delta.assets.filter (·.operation = .add)).map (·.asset)

def removedAssets (delta : AccountVaultDelta P) : List (Asset P) :=
  (delta.assets.filter (·.operation = .remove)).map (·.asset)

/-- `AccountVaultDelta::new`. -/
def new (assets : List (AssetDelta P)) : Option (AccountVaultDelta P) :=
  if h : (assets.map (·.asset.id)).Nodup then some ⟨assets, h⟩ else none

end AccountVaultDelta

/-- `AccountDelta::new`. -/
def AccountDelta.new (delta : AccountDelta P) : Option (AccountDelta P) :=
  if L.acceptsDelta delta then some delta else none

/-- `AccountPatch::new`. -/
def AccountPatch.new (patch : AccountPatch P) : Option (AccountPatch P) :=
  if L.acceptsPatch patch then some patch else none

/-- A vault on the way to its final assets, with the patch so far. -/
abbrev PatchedVault (P : AccountTypes) := P.Vault × AccountVaultPatch P

/-- An added asset of `vault_patch_from_delta`. -/
def insertAdded (v : PatchedVault P) (asset : Asset P) : Option (PatchedVault P) := do
  let (finalAsset, finalVault) ← L.addAsset v.1 asset
  return (finalVault, v.2 ++ [(finalAsset.id, some finalAsset)])

/-- A removed asset of `vault_patch_from_delta`. -/
def takeRemoved (v : PatchedVault P) (asset : Asset P) : Option (PatchedVault P) := do
  match ← L.removeAsset v.1 asset with
  | (some finalAsset, finalVault) => return (finalVault, v.2 ++ [(finalAsset.id, some finalAsset)])
  | (none, finalVault) => return (finalVault, v.2 ++ [(asset.id, none)])

/-- `vault_patch_from_delta`. -/
def vaultPatchFromDelta (finalVault : P.Vault) (delta : AccountDelta P) :
    Option (AccountVaultPatch P) := do
  let v ← delta.vault.addedAssets.foldlM (insertAdded L) (finalVault, [])
  let v ← delta.vault.removedAssets.foldlM (takeRemoved L) v
  return v.2

/-- `account_patch_from_parts`. -/
def accountPatchFromParts (finalVault : P.Vault) (initialNonce : Felt) (delta : AccountDelta P)
    (additionalStorage : P.StoragePatch) : Option (AccountPatch P) := do
  let vaultPatch ← vaultPatchFromDelta L finalVault delta
  let storagePatch ← L.mergeStorage delta.storage additionalStorage
  AccountPatch.new L
    { id := delta.id
      storage := storagePatch
      vault := vaultPatch
      code := delta.code
      finalNonce :=
        if L.deltaIsEmpty delta && L.storagePatchIsEmpty storagePatch then none
        else some (initialNonce + delta.nonceDelta) }

/-- `is_account_creation`. -/
def isAccountCreation (account : Account P) (delta : AccountDelta P) : Bool :=
  account.isNew && !L.codePatchIsEmpty delta.code

/-- `rebuilds_new_account`. -/
def rebuildsNewAccount (account : Account P) (delta : AccountDelta P) : Bool :=
  account.isNew && delta.nonceDelta.val == 1

/-- `account_patch_from_delta`. -/
def accountPatchFromDelta (account : Account P) (delta : AccountDelta P)
    (additionalStorage : P.StoragePatch) : Option (AccountPatch P) :=
  if account.id ≠ delta.id then none
  else if rebuildsNewAccount account delta then do
    let slots ← L.patchFromSlots account.storage
    let merged ← L.mergeStorage slots delta.storage
    let storagePatch ← L.mergeStorage merged additionalStorage
    let vaultPatch ← vaultPatchFromDelta L account.vault delta
    AccountPatch.new L
      { id := delta.id
        storage := storagePatch
        vault := (L.vaultAssets account.vault).map (fun a => (a.id, some a)) ++ vaultPatch
        code := L.codePatch account.code
        finalNonce := some ⟨1, by decide⟩ }
  else accountPatchFromParts L account.vault account.nonce delta additionalStorage

/-- `apply_account_delta_with_storage_patch`. -/
def applyAccountDeltaWithStoragePatch (account : Account P) (delta : AccountDelta P)
    (additionalStorage : P.StoragePatch) : Option (Account P) :=
  if isAccountCreation L account delta then none
  else do
    let patch ← accountPatchFromDelta L account delta additionalStorage
    if rebuildsNewAccount account delta then L.patchToNewAccount patch
    else L.applyPatch account patch

/-- `apply_account_delta`. -/
def applyAccountDelta (account : Account P) (delta : AccountDelta P) : Option (Account P) :=
  applyAccountDeltaWithStoragePatch L account delta L.emptyStoragePatch

theorem zero_lt_order : 0 < Signing.order := by decide

/-- `account_from_full_delta_with_storage_patch`. -/
def accountFromFullDeltaWithStoragePatch (delta : AccountDelta P)
    (additionalStorage : P.StoragePatch) : Option (Account P) :=
  if L.codePatchIsEmpty delta.code then none
  else do
    let patch ← accountPatchFromParts L L.emptyVault ⟨0, zero_lt_order⟩ delta additionalStorage
    L.patchToNewAccount patch

/-! ## Applying a summary -/

/-- `AuthGuardedMultisig::executed_transactions_slot`. -/
def executedTransactionsSlot : String := "miden::standards::auth::multisig::executed_transactions"

/-- `IS_EXECUTED_FLAG`, as a word. -/
def executedFlag : Word := "0x0100000000000000000000000000000000000000000000000000000000000000"

/-- The account of `apply_summary`. What authentication records of the
transaction is not in the delta, and is added where the base has multisig
authentication. -/
def applySummary (prevAccount : Option (Account P)) (txSummary : P.Summary) :
    Option (Account P) := do
  let delta := txSummary.accountDelta
  let isFullState := !L.codePatchIsEmpty delta.code && prevAccount.all (·.isNew)
  let baseAccount ←
    if isFullState then accountFromFullDeltaWithStoragePatch L delta L.emptyStoragePatch
    else prevAccount
  let storageEntries :=
    if baseAccount.hasMultisigAuth L then
      [(executedTransactionsSlot, L.summaryCommitment txSummary, executedFlag)]
    else []
  let additionalStorage ← L.patchFromEntries storageEntries
  if isFullState then accountFromFullDeltaWithStoragePatch L delta additionalStorage
  else applyAccountDeltaWithStoragePatch L baseAccount delta additionalStorage

end Apply

/-! ## Merging -/

section Merge
variable {P : AccountTypes} (L : AccountLibrary P)

def AssetDeltaOperation.sign : AssetDeltaOperation → Int
  | .add => 1
  | .remove => -1

/-- The maps of `merge_vault_deltas`. -/
structure NettedAssets (P : AccountTypes) where
  fungible : List (Ledger.Entry P.AccountId)
  nonFungible : List (AssetDelta P)

/-- An asset delta of `merge_vault_deltas`. -/
def netAsset (acc : NettedAssets P) (delta : AssetDelta P) : Option (NettedAssets P) :=
  match delta.asset with
  | .fungible faucetId amount =>
    some { acc with
      fungible := Ledger.bump ⟨faucetId, delta.operation.sign * amount⟩ acc.fungible }
  | .nonFungible _ =>
    match acc.nonFungible.find? (·.asset.id = delta.asset.id) with
    | none => some { acc with nonFungible := acc.nonFungible ++ [delta] }
    | some previous =>
      if previous.operation ≠ delta.operation then
        some { acc with
          nonFungible := acc.nonFungible.filter (·.asset.id ≠ delta.asset.id) }
      else none

/-- The asset delta of a faucet's net amount; none for a net of zero. -/
def fungibleDelta (net : Ledger.Entry P.AccountId) : Option (List (AssetDelta P)) :=
  if net.amount = 0 then some []
  else
    let operation : AssetDeltaOperation := if 0 < net.amount then .add else .remove
    let magnitude := net.amount.natAbs
    if 2 ^ 64 ≤ magnitude ∨ L.maxAmount < magnitude then none
    else some [⟨operation, .fungible net.key magnitude⟩]

/-- `merge_vault_deltas`. -/
def mergeVaultDeltas (deltas : List (AccountVaultDelta P)) : Option (AccountVaultDelta P) := do
  let netted ← (deltas.flatMap (·.assets)).foldlM netAsset ⟨[], []⟩
  let fungible ← netted.fungible.mapM (fungibleDelta L)
  AccountVaultDelta.new (netted.nonFungible ++ fungible.flatten)

/-- `merge_account_deltas`. -/
def mergeAccountDeltas : List (AccountDelta P) → Option (AccountDelta P)
  | [] => none
  | first :: deltas => do
    let storage ← deltas.foldlM (fun merged d => L.mergeStorage merged d.storage) first.storage
    let vault ← mergeVaultDeltas L ((first :: deltas).map (·.vault))
    AccountDelta.new L
      { id := first.id
        storage := storage
        vault := vault
        code := deltas.foldl (fun merged d => L.mergeCode merged d.code) first.code
        nonceDelta := deltas.foldl (fun sum d => sum + d.nonceDelta) first.nonceDelta }

/-- The summary `merge_deltas` makes of others: the notes of all, and the block,
expiration and parameters of the last. -/
def mergeSummaries (summaries : List P.Summary) : Option P.Summary := do
  let last ← summaries.getLast?
  let delta ← mergeAccountDeltas L (summaries.map (·.accountDelta))
  let inputNotes := summaries.flatMap (·.inputNotes)
  let outputNotes := summaries.flatMap (·.outputNotes)
  if L.acceptsInputNotes inputNotes && L.acceptsOutputNotes outputNotes then
    return { last with accountDelta := delta, inputNotes := inputNotes, outputNotes := outputNotes }
  else none

/-- `merge_deltas`. -/
def mergeDeltas (payloads : List Payload) : Option Payload := do
  let summaries ← payloads.mapM L.summaryFromJson
  return L.summaryToJson (← mergeSummaries L summaries)

end Merge
end Guardian
