import Guardian.Account.Delta

/- One merged delta against the deltas it was merged from. `Composes` and `Lawful` say
   what is relied on of the miden crates: a vault counts units of assets up to a limit,
   storage and code patches compose in sequence, and an update of one map entry
   commutes with every patch that does not write that entry.

   Vault deltas are netted, and the net can be applied wherever the deltas could
   be applied one after the other: `mergeVaultDeltas_of`. So a merged delta leads
   where its parts lead, taken as they are: `applyAccountDelta_merged`. -/
namespace Guardian

open Signing (Felt)

def Asset.units {P : AccountTypes} : Asset P → Nat
  | .fungible _ amount => amount
  | .nonFungible _ => 1

@[simp] theorem Asset.id_fungible {P : AccountTypes} (faucetId : P.AccountId) (amount : Nat) :
    (Asset.fungible faucetId amount).id = .fungible faucetId := rfl

@[simp] theorem Asset.id_nonFungible {P : AccountTypes} (asset : P.NonFungible) :
    (Asset.nonFungible asset).id = .nonFungible asset := rfl

@[simp] theorem Asset.units_fungible {P : AccountTypes} (faucetId : P.AccountId) (amount : Nat) :
    (Asset.fungible faucetId amount).units = amount := rfl

@[simp] theorem Asset.units_nonFungible {P : AccountTypes} (asset : P.NonFungible) :
    (Asset.nonFungible asset).units = 1 := rfl

/-- How many units of an asset a vault can hold. -/
def AccountLibrary.limit {P : AccountTypes} (L : AccountLibrary P) : AssetId P → Nat
  | .fungible _ => L.maxAmount
  | .nonFungible _ => 1

/-- The units a vault patch leaves of an asset, where it says so. -/
def patchedUnits {P : AccountTypes} (patch : AccountVaultPatch P) (id : AssetId P) : Option Nat :=
  patch.foldl (fun units entry => if entry.1 = id then some ((entry.2.map Asset.units).getD 0)
    else units) none

/-- What applying and merging deltas relies on of the miden crates. -/
structure AccountLibrary.Composes {P : AccountTypes} (L : AccountLibrary P) where
  maxAmount_lt : L.maxAmount < 2 ^ 64
  /-- A vault is the units it holds of each asset. -/
  units : P.Vault → AssetId P → Nat
  units_le : ∀ v id, units v id ≤ L.limit id
  vault_ext : ∀ {v v'}, (∀ id, units v id = units v' id) → v = v'
  add_units : ∀ {v asset final v'}, L.addAsset v asset = some (final, v') →
    final.id = asset.id ∧ final.units = units v asset.id + asset.units ∧
    ∀ id, units v' id = units v id + if asset.id = id then asset.units else 0
  add_of : ∀ {v asset}, units v asset.id + asset.units ≤ L.limit asset.id →
    ∃ r, L.addAsset v asset = some r
  remove_units : ∀ {v asset final v'}, L.removeAsset v asset = some (final, v') →
    (∀ left ∈ final, left.id = asset.id) ∧
    (final.map Asset.units).getD 0 + asset.units = units v asset.id ∧
    ∀ id, units v' id + (if asset.id = id then asset.units else 0) = units v id
  remove_of : ∀ {v asset}, asset.units ≤ units v asset.id → ∃ r, L.removeAsset v asset = some r
  /-- What `apply_patch` makes of a storage and a code. -/
  applyStorage : P.StoragePatch → P.Storage → Option P.Storage
  applyCode : P.CodePatch → P.Code → P.Code
  applyStorage_empty : ∀ s, applyStorage L.emptyStoragePatch s = some s
  /-- Patches compose in sequence. -/
  applyStorage_merge : ∀ {p q r}, L.mergeStorage p q = some r →
    ∀ s, applyStorage r s = (applyStorage p s).bind (applyStorage q)
  mergeStorage_of : ∀ {p q s s₁ s₂}, applyStorage p s = some s₁ → applyStorage q s₁ = some s₂ →
    ∃ r, L.mergeStorage p q = some r
  applyCode_merge : ∀ p q c, applyCode (L.mergeCode p q) c = applyCode q (applyCode p c)
  deltaIsEmpty_nonce : ∀ {d}, L.deltaIsEmpty d = true → d.nonceDelta.val = 0
  acceptsDelta_of : ∀ {d}, d.nonceDelta.val ≠ 0 → L.acceptsDelta d = true
  acceptsPatch_of : ∀ {p nonce}, p.finalNonce = some nonce → 1 < nonce.val → L.acceptsPatch p = true
  /-- `apply_patch` applies every part. -/
  applyPatch_ok : ∀ {a p a'}, L.applyPatch a p = some a' →
    applyStorage p.storage a.storage = some a'.storage ∧
    (∀ id, units a'.vault id = (patchedUnits p.vault id).getD (units a.vault id)) ∧
    a'.code = applyCode p.code a.code ∧ a'.id = a.id ∧ a'.nonce = p.finalNonce.getD a.nonce
  applyPatch_of : ∀ {a p s nonce}, p.id = a.id → applyStorage p.storage a.storage = some s →
    (∀ id n, patchedUnits p.vault id = some n → n ≤ L.limit id) →
    p.finalNonce = some nonce → a.nonce < nonce → ∃ a', L.applyPatch a p = some a'

/-- What is relied on of the miden crates. -/
structure AccountLibrary.Lawful {P : AccountTypes} (L : AccountLibrary P) extends L.Composes where
  patchFromEntries_nil : L.patchFromEntries [] = some L.emptyStoragePatch
  /-- A patch leaves a map entry as it says, or as it was. -/
  getMapItem_apply : ∀ {p s s'}, applyStorage p s = some s' → ∀ slot key,
    L.getMapItem s' slot key = (L.patchedEntry p slot key).getD (L.getMapItem s slot key)
  patchedEntry_entry : ∀ {slot key value p}, L.patchFromEntries [(slot, key, value)] = some p →
    ∀ key', L.patchedEntry p slot key' = if key = key' then some (some value) else none
  /-- Writing what is there changes nothing. -/
  applyStorage_entry : ∀ {slot key value p s},
    L.patchFromEntries [(slot, key, value)] = some p →
    L.getMapItem s slot key = some value → applyStorage p s = some s
  /-- A patch overwrites a map entry or commutes with its update. -/
  applyStorage_comm : ∀ {slot key value e s s'},
    L.patchFromEntries [(slot, key, value)] = some e → applyStorage e s = some s' →
    ∀ p, applyStorage p s' = match L.patchedEntry p slot key with
      | none => (applyStorage p s).bind (applyStorage e)
      | some _ => applyStorage p s
  commitment_inj : ∀ {a b}, L.commitment a = L.commitment b → a = b
  commitment_ne : ∀ a, L.commitment a ≠ ""
  wordFromHex_commitment : ∀ a, L.wordFromHex (L.commitment a) = some (L.commitment a)
  summary_json : ∀ s, L.summaryFromJson (L.summaryToJson s) = some s
  txSummaryField_summary : ∀ s, L.txSummaryField (L.summaryToJson s) = none

variable {P : AccountTypes} {L : AccountLibrary P}

/-! ## Vaults -/

/-- The units an asset delta moves. -/
def AssetDelta.entry (d : AssetDelta P) : Ledger.Entry (AssetId P) :=
  ⟨d.asset.id, d.operation.sign * d.asset.units⟩

theorem AssetDelta.net_entry (d : AssetDelta P) (id : AssetId P) :
    Ledger.net [d.entry] id = if d.asset.id = id then d.operation.sign * d.asset.units else 0 := by
  rw [Ledger.net_cons, Ledger.net_nil, add_zero]
  rfl

def AccountVaultDelta.entries (d : AccountVaultDelta P) : List (Ledger.Entry (AssetId P)) :=
  d.assets.map AssetDelta.entry

theorem AccountVaultDelta.nodup_entries (d : AccountVaultDelta P) :
    (d.entries.map Ledger.Entry.key).Nodup := by
  have hkeys : d.entries.map Ledger.Entry.key = d.assets.map (·.asset.id) := by
    rw [AccountVaultDelta.entries, List.map_map]
    rfl
  rw [hkeys]
  exact d.distinct

/-- One step of `vault_patch_from_delta`. -/
def stepVault (L : AccountLibrary P) (v : PatchedVault P) (d : AssetDelta P) :
    Option (PatchedVault P) :=
  match d.operation with
  | .add => insertAdded L v d.asset
  | .remove => takeRemoved L v d.asset

theorem insertAdded_eq_some {v v' : PatchedVault P} {asset : Asset P}
    (h : insertAdded L v asset = some v') : ∃ final, L.addAsset v.1 asset = some (final, v'.1) ∧
      v'.2 = v.2 ++ [(final.id, some final)] := by
  unfold insertAdded at h
  obtain ⟨⟨final, vault⟩, hadd, h⟩ := Option.bind_eq_some_iff.mp h
  cases h
  exact ⟨final, hadd, rfl⟩

theorem takeRemoved_eq_some (law : L.Composes) {v v' : PatchedVault P} {asset : Asset P}
    (h : takeRemoved L v asset = some v') : ∃ final,
      L.removeAsset v.1 asset = some (final, v'.1) ∧ v'.2 = v.2 ++ [(asset.id, final)] := by
  unfold takeRemoved at h
  obtain ⟨⟨final, vault⟩, hremove, h⟩ := Option.bind_eq_some_iff.mp h
  cases final with
  | none =>
    cases h
    exact ⟨none, hremove, rfl⟩
  | some left =>
    cases h
    exact ⟨some left, hremove, by rw [(law.remove_units hremove).1 left rfl]⟩

theorem stepVault_of (law : L.Composes) {v : PatchedVault P} {d : AssetDelta P}
    (hlow : 0 ≤ law.units v.1 d.entry.key + d.entry.amount)
    (hhigh : law.units v.1 d.entry.key + d.entry.amount ≤ L.limit d.entry.key) :
    ∃ v', stepVault L v d = some v' := by
  obtain ⟨operation, asset⟩ := d
  cases operation with
  | add =>
    have hle : law.units v.1 asset.id + asset.units ≤ L.limit asset.id := by
      simp only [AssetDelta.entry, AssetDeltaOperation.sign] at hhigh
      omega
    obtain ⟨⟨final, vault⟩, hadd⟩ := law.add_of hle
    exact ⟨_, Option.bind_eq_some_iff.mpr ⟨_, hadd, rfl⟩⟩
  | remove =>
    have hle : asset.units ≤ law.units v.1 asset.id := by
      simp only [AssetDelta.entry, AssetDeltaOperation.sign] at hlow
      omega
    obtain ⟨⟨final, vault⟩, hremove⟩ := law.remove_of hle
    cases final with
    | none => exact ⟨_, Option.bind_eq_some_iff.mpr ⟨_, hremove, rfl⟩⟩
    | some left => exact ⟨_, Option.bind_eq_some_iff.mpr ⟨_, hremove, rfl⟩⟩

theorem stepVault_units (law : L.Composes) {v v' : PatchedVault P} {d : AssetDelta P}
    (h : stepVault L v d = some v') (id : AssetId P) :
    (law.units v'.1 id : Int) = law.units v.1 id + Ledger.net [d.entry] id := by
  obtain ⟨operation, asset⟩ := d
  rw [AssetDelta.net_entry]
  cases operation with
  | add =>
    obtain ⟨final, hadd, _⟩ := insertAdded_eq_some h
    rw [(law.add_units hadd).2.2 id]
    by_cases hid : asset.id = id
    · simp [AssetDeltaOperation.sign, hid]
    · simp [hid]
  | remove =>
    obtain ⟨final, hremove, _⟩ := takeRemoved_eq_some law h
    rw [← (law.remove_units hremove).2.2 id]
    by_cases hid : asset.id = id
    · simp [AssetDeltaOperation.sign, hid]
    · simp [hid]

/-- A vault with its patch is posted to as a ledger. -/
def vaultPosting (law : L.Composes) :
    Ledger.Posting (PatchedVault P) (AssetId P) (AssetDelta P) where
  entry := AssetDelta.entry
  units := fun v => law.units v.1
  limit := L.limit
  post := stepVault L
  units_le := fun v => law.units_le v.1
  post_units := stepVault_units law
  post_of := stepVault_of law

theorem patchedUnits_append (patch : AccountVaultPatch P) (id id' : AssetId P)
    (final : Option (Asset P)) : patchedUnits (patch ++ [(id', final)]) id =
      if id' = id then some ((final.map Asset.units).getD 0) else patchedUnits patch id := by
  simp [patchedUnits]

/-- The patch has the final units of what it names. -/
theorem patchedUnits_step (law : L.Composes) {v v' : PatchedVault P} {d : AssetDelta P}
    {base : AssetId P → Nat}
    (hbase : ∀ id, (patchedUnits v.2 id).getD (base id) = law.units v.1 id)
    (h : stepVault L v d = some v') (id : AssetId P) :
    (patchedUnits v'.2 id).getD (base id) = law.units v'.1 id := by
  obtain ⟨operation, asset⟩ := d
  cases operation with
  | add =>
    obtain ⟨final, hadd, hpatch⟩ := insertAdded_eq_some h
    obtain ⟨hid, hunits, hall⟩ := law.add_units hadd
    rw [hpatch, patchedUnits_append, hid, hall id, ← hbase id]
    split
    · next heq =>
      subst heq
      simp [hunits, hbase]
    · simp
  | remove =>
    obtain ⟨final, hremove, hpatch⟩ := takeRemoved_eq_some law h
    obtain ⟨_, hleft, hall⟩ := law.remove_units hremove
    have hid := hall id
    rw [hpatch, patchedUnits_append]
    split
    · next heq =>
      subst heq
      rw [if_pos rfl] at hid
      show (final.map Asset.units).getD 0 = _
      omega
    · next hne =>
      rw [if_neg hne] at hid
      rw [hbase id]
      omega

/-- The asset deltas in the order `vault_patch_from_delta` takes them. -/
def AccountVaultDelta.ordered (d : AccountVaultDelta P) : List (AssetDelta P) :=
  d.assets.filter (·.operation = .add) ++ d.assets.filter (·.operation = .remove)

theorem AccountVaultDelta.ordered_perm (d : AccountVaultDelta P) : d.ordered.Perm d.assets := by
  have hremove : d.assets.filter (·.operation = .remove) =
      d.assets.filter (fun a => !decide (a.operation = .add)) := by
    refine List.filter_congr fun a _ => ?_
    cases a.operation <;> rfl
  rw [AccountVaultDelta.ordered, hremove]
  exact List.filter_append_perm _ _

theorem foldlM_of_operation {f : PatchedVault P → Asset P → Option (PatchedVault P)}
    {operation : AssetDeltaOperation} (hf : ∀ v a, stepVault L v ⟨operation, a⟩ = f v a)
    (l : List (AssetDelta P)) (v : PatchedVault P) :
    ((l.filter (·.operation = operation)).map (·.asset)).foldlM f v =
      (l.filter (·.operation = operation)).foldlM (stepVault L) v := by
  induction l generalizing v with
  | nil => rfl
  | cons d l ih =>
    by_cases hop : d.operation = operation
    · rw [List.filter_cons_of_pos (by simpa using hop), List.map_cons, List.foldlM_cons,
        List.foldlM_cons, ← hf, ← hop]
      exact bind_congr fun v' => hop ▸ ih v'
    · rw [List.filter_cons_of_neg (by simpa using hop)]
      exact ih v

theorem vaultPatchFromDelta_eq (v : P.Vault) (delta : AccountDelta P) :
    vaultPatchFromDelta L v delta =
      (delta.vault.ordered.foldlM (stepVault L) (v, [])).map (·.2) := by
  have hadd : ∀ v a, stepVault L v ⟨.add, a⟩ = insertAdded L v a := fun _ _ => rfl
  have hremove : ∀ v a, stepVault L v ⟨.remove, a⟩ = takeRemoved L v a := fun _ _ => rfl
  unfold vaultPatchFromDelta AccountVaultDelta.addedAssets AccountVaultDelta.removedAssets
  rw [AccountVaultDelta.ordered, List.foldlM_append]
  simp only [foldlM_of_operation hadd, foldlM_of_operation hremove]
  cases (delta.vault.assets.filter (·.operation = .add)).foldlM (stepVault L) (v, []) with
  | none => rfl
  | some v₁ =>
    show ((_ : Option (PatchedVault P)).bind fun v => some v.2) = _
    rw [Option.map_eq_bind]
    rfl

theorem patchedUnits_foldlM (law : L.Composes) {base : AssetId P → Nat} {l : List (AssetDelta P)}
    {v v' : PatchedVault P} (hbase : ∀ id, (patchedUnits v.2 id).getD (base id) = law.units v.1 id)
    (h : l.foldlM (stepVault L) v = some v') (id : AssetId P) :
    (patchedUnits v'.2 id).getD (base id) = law.units v'.1 id := by
  induction l generalizing v with
  | nil =>
    cases h
    exact hbase id
  | cons d l ih =>
    obtain ⟨v₁, h₁, h₂⟩ := Option.bind_eq_some_iff.mp h
    exact ih (patchedUnits_step law hbase h₁) h₂

/-- A vault patch leads to the vault its delta leads to. -/
theorem vaultPatchFromDelta_ok (law : L.Composes) {v : P.Vault} {delta : AccountDelta P}
    {patch : AccountVaultPatch P} (h : vaultPatchFromDelta L v delta = some patch) (id : AssetId P) :
    (((patchedUnits patch id).getD (law.units v id) : Nat) : Int) =
        law.units v id + Ledger.net delta.vault.entries id ∧
      ∀ n, patchedUnits patch id = some n → n ≤ L.limit id := by
  rw [vaultPatchFromDelta_eq] at h
  obtain ⟨v', hfold, rfl⟩ := Option.map_eq_some_iff.mp h
  have hstart : ∀ id, (patchedUnits ([] : AccountVaultPatch P) id).getD (law.units v id) =
      law.units v id := fun _ => rfl
  have hpatch := patchedUnits_foldlM law hstart hfold id
  have hunits := (vaultPosting law).postAll_units hfold id
  refine ⟨?_, fun n hn => ?_⟩
  · rw [hpatch, AccountVaultDelta.entries,
      ← Ledger.net_perm (delta.vault.ordered_perm.map AssetDelta.entry) id]
    exact hunits
  · rw [hn] at hpatch
    rw [show n = law.units v'.1 id from hpatch]
    exact law.units_le v'.1 id

/-- A delta whose net fits can be applied. -/
theorem vaultPatchFromDelta_of (law : L.Composes) {v : P.Vault} {delta : AccountDelta P}
    (h : ∀ id, 0 ≤ law.units v id + Ledger.net delta.vault.entries id ∧
      law.units v id + Ledger.net delta.vault.entries id ≤ L.limit id) :
    ∃ patch, vaultPatchFromDelta L v delta = some patch := by
  have hperm := delta.vault.ordered_perm.map AssetDelta.entry
  have hnodup : ((delta.vault.ordered.map AssetDelta.entry).map Ledger.Entry.key).Nodup :=
    (hperm.map _).nodup_iff.mpr delta.vault.nodup_entries
  obtain ⟨v', hv'⟩ := (vaultPosting law).postAll_of_distinct (v := (v, [])) hnodup fun d hd => by
    have hmem : d.entry ∈ delta.vault.entries := hperm.subset (List.mem_map_of_mem hd)
    have hfits := h d.entry.key
    rw [Ledger.net_of_mem delta.vault.nodup_entries hmem] at hfits
    exact hfits
  rw [vaultPatchFromDelta_eq]
  exact ⟨v'.2, Option.map_eq_some_iff.mpr ⟨v', hv', rfl⟩⟩

/-! ## Netting -/

/-- A faucet's net amount, as an entry of its asset. -/
def faucetEntry (net : Ledger.Entry P.AccountId) : Ledger.Entry (AssetId P) :=
  ⟨.fungible net.key, net.amount⟩

theorem net_faucetEntry (m : List (Ledger.Entry P.AccountId)) (id : AssetId P) :
    Ledger.net (m.map faucetEntry) id = match id with
      | .fungible faucetId => Ledger.net m faucetId
      | .nonFungible _ => 0 := by
  induction m with
  | nil => cases id <;> rfl
  | cons e m ih =>
    rw [List.map_cons, Ledger.net_cons, ih]
    cases id with
    | fungible faucetId => simp [faucetEntry, Ledger.net_cons]
    | nonFungible asset => simp [faucetEntry]

namespace NettedAssets

/-- What the maps net an asset to. -/
def net (acc : NettedAssets P) (id : AssetId P) : Int :=
  Ledger.net (acc.nonFungible.map AssetDelta.entry) id +
    Ledger.net (acc.fungible.map faucetEntry) id

/-- Each map has its keys once. -/
structure Keyed (acc : NettedAssets P) : Prop where
  fungible : (acc.fungible.map Ledger.Entry.key).Nodup
  nonFungible : (acc.nonFungible.map (·.asset.id)).Nodup
  single : ∀ d ∈ acc.nonFungible, ∃ asset, d.asset = .nonFungible asset

variable {acc acc' : NettedAssets P} {d : AssetDelta P}

theorem Keyed.net_nonFungible (hacc : acc.Keyed) {previous : AssetDelta P}
    (h : previous ∈ acc.nonFungible) :
    Ledger.net (acc.nonFungible.map AssetDelta.entry) previous.asset.id =
      previous.operation.sign := by
  obtain ⟨asset, hasset⟩ := hacc.single previous h
  have hnodup : ((acc.nonFungible.map AssetDelta.entry).map Ledger.Entry.key).Nodup := by
    rw [List.map_map]
    exact hacc.nonFungible
  have hnet := Ledger.net_of_mem hnodup (List.mem_map_of_mem h)
  simpa [AssetDelta.entry, hasset] using hnet

/-- An asset delta is added to the net of its asset. -/
theorem Keyed.netAsset (hacc : acc.Keyed) (h : netAsset acc d = some acc') :
    acc'.Keyed ∧ ∀ id, acc'.net id = acc.net id + Ledger.net [d.entry] id := by
  obtain ⟨operation, asset⟩ := d
  cases asset with
  | fungible faucetId amount =>
    cases h
    refine ⟨⟨Ledger.nodup_bump hacc.fungible, hacc.nonFungible, hacc.single⟩, fun id => ?_⟩
    simp only [net, net_faucetEntry, Ledger.net_cons, Ledger.net_nil, AssetDelta.entry,
      Asset.id_fungible, Asset.units_fungible]
    cases id with
    | fungible faucetId' => simp [Ledger.net_bump, add_assoc]
    | nonFungible asset => simp
  | nonFungible asset =>
    simp only [Guardian.netAsset] at h
    split at h
    · next hnone =>
      cases h
      have hfresh : (Asset.nonFungible asset).id ∉ acc.nonFungible.map (·.asset.id) := by
        intro hmem
        obtain ⟨previous, hprevious, hid⟩ := List.mem_map.mp hmem
        exact List.find?_eq_none.mp hnone previous hprevious (decide_eq_true hid)
      refine ⟨⟨hacc.fungible, ?_, fun d hd => ?_⟩, fun id => ?_⟩
      · rw [List.map_append, List.nodup_append']
        refine ⟨hacc.nonFungible, List.nodup_singleton _, ?_⟩
        simpa using hfresh
      · rcases List.mem_append.mp hd with hd | hd
        · exact hacc.single d hd
        · exact ⟨asset, by rw [List.mem_singleton.mp hd]⟩
      · simp only [net, List.map_append, Ledger.net_append, List.map_cons, List.map_nil]
        omega
    · next previous hfound =>
      split at h
      · next hne =>
        cases h
        have hmem := List.mem_of_find?_eq_some hfound
        have hid : previous.asset.id = (Asset.nonFungible asset).id := by
          have hsame := List.find?_some hfound
          exact of_decide_eq_true hsame
        refine ⟨⟨hacc.fungible, hacc.nonFungible.sublist (List.filter_sublist.map _),
          fun d hd => hacc.single d (List.mem_of_mem_filter hd)⟩, fun id => ?_⟩
        have hfilter : (acc.nonFungible.filter (·.asset.id ≠ (Asset.nonFungible asset).id)).map
            AssetDelta.entry = (acc.nonFungible.map AssetDelta.entry).filter
              (·.key ≠ (Asset.nonFungible asset).id) := by
          rw [List.filter_map]
          rfl
        have hnet := hacc.net_nonFungible hmem
        have hcancel : previous.operation.sign + operation.sign = 0 := by
          cases hp : previous.operation <;> cases operation <;>
            simp_all [AssetDeltaOperation.sign]
        rw [net, hfilter, Ledger.net_filter_ne, net, AssetDelta.net_entry]
        by_cases heq : (Asset.nonFungible asset).id = id
        · subst heq
          rw [hid] at hnet
          rw [if_pos rfl, if_pos rfl, hnet, Asset.units_nonFungible]
          show 0 + Ledger.net (acc.fungible.map faucetEntry) _ =
            previous.operation.sign + _ + operation.sign * (1 : Nat)
          omega
        · rw [if_neg heq, if_neg heq]
          exact (add_zero _).symm
      · cases h

/-- It can be, unless an asset would be added or removed twice. -/
theorem Keyed.netAsset_of (hacc : acc.Keyed)
    (h : ∀ asset, (acc.net (.nonFungible asset) + Ledger.net [d.entry] (.nonFungible asset)).natAbs
      ≤ 1) : ∃ acc', Guardian.netAsset acc d = some acc' := by
  obtain ⟨operation, asset⟩ := d
  cases asset with
  | fungible faucetId amount => exact ⟨_, rfl⟩
  | nonFungible asset =>
    simp only [Guardian.netAsset]
    split
    · exact ⟨_, rfl⟩
    · next previous hfound =>
      split
      · exact ⟨_, rfl⟩
      · next heq =>
        have hid : previous.asset.id = (Asset.nonFungible asset).id := by
          have hsame := List.find?_some hfound
          exact of_decide_eq_true hsame
        have hnet := hacc.net_nonFungible (List.mem_of_find?_eq_some hfound)
        rw [hid, not_not.mp heq, Asset.id_nonFungible] at hnet
        have htwice := h asset
        rw [net, hnet, net_faucetEntry] at htwice
        cases operation <;>
          simp [AssetDelta.entry, Ledger.net_cons, AssetDeltaOperation.sign] at htwice

/-- The loop of `merge_vault_deltas`. -/
theorem Keyed.foldlM_of {l : List (AssetDelta P)} (hacc : acc.Keyed)
    (h : ∀ l₁ l₂, l = l₁ ++ l₂ → ∀ asset, (acc.net (.nonFungible asset) +
      Ledger.net (l₁.map AssetDelta.entry) (.nonFungible asset)).natAbs ≤ 1) :
    ∃ acc', l.foldlM Guardian.netAsset acc = some acc' ∧ acc'.Keyed ∧
      ∀ id, acc'.net id = acc.net id + Ledger.net (l.map AssetDelta.entry) id := by
  induction l generalizing acc with
  | nil => exact ⟨acc, rfl, hacc, fun id => (add_zero _).symm⟩
  | cons d l ih =>
    obtain ⟨acc₁, h₁⟩ := hacc.netAsset_of (d := d) (h [d] l rfl)
    obtain ⟨hacc₁, hnet₁⟩ := hacc.netAsset h₁
    have hcons : ∀ (l' : List (AssetDelta P)) id, Ledger.net ((d :: l').map AssetDelta.entry) id =
        Ledger.net [d.entry] id + Ledger.net (l'.map AssetDelta.entry) id := by
      intro l' id
      rw [List.map_cons, Ledger.net_cons, Ledger.net_cons, Ledger.net_nil, add_zero]
    obtain ⟨acc', h', hacc', hnet'⟩ := ih hacc₁ fun l₁ l₂ hl asset => by
      have hpart := h (d :: l₁) l₂ (by rw [hl, List.cons_append]) asset
      rw [hcons, ← add_assoc, ← hnet₁] at hpart
      exact hpart
    refine ⟨acc', Option.bind_eq_some_iff.mpr ⟨acc₁, h₁, h'⟩, hacc', fun id => ?_⟩
    rw [hnet', hnet₁, hcons, add_assoc]

end NettedAssets

/-- A faucet's asset delta moves its net amount. -/
theorem fungibleDelta_of (law : L.Composes) {e : Ledger.Entry P.AccountId}
    (h : e.amount.natAbs ≤ L.maxAmount) : ∃ l, fungibleDelta L e = some l ∧
      (∀ id, Ledger.net (l.map AssetDelta.entry) id = Ledger.net [faucetEntry e] id) ∧
      (l.map (·.asset.id)).Sublist [.fungible e.key] := by
  have hlt := law.maxAmount_lt
  obtain ⟨faucetId, amount⟩ := e
  unfold fungibleDelta
  split
  · next hzero =>
    refine ⟨[], rfl, fun id => ?_, List.nil_sublist _⟩
    rw [Ledger.net_cons, show (faucetEntry (P := P) ⟨faucetId, amount⟩).amount = 0 from hzero]
    simp
  · next hne =>
    simp only at h hne ⊢
    rw [if_neg (by omega)]
    refine ⟨_, rfl, fun id => ?_, List.Sublist.refl _⟩
    rw [List.map_cons, List.map_nil, AssetDelta.net_entry, Ledger.net_cons, Ledger.net_nil, add_zero]
    have hsigned : (if 0 < amount then AssetDeltaOperation.add else .remove).sign *
        (amount.natAbs : Int) = amount := by
      split
      · simp only [AssetDeltaOperation.sign]
        omega
      · simp only [AssetDeltaOperation.sign]
        omega
    simp only [Asset.id_fungible, Asset.units_fungible, hsigned]
    rfl

theorem mapM_fungibleDelta_of (law : L.Composes) {m : List (Ledger.Entry P.AccountId)}
    (h : ∀ e ∈ m, e.amount.natAbs ≤ L.maxAmount) : ∃ ls, m.mapM (fungibleDelta L) = some ls ∧
      (∀ id, Ledger.net (ls.flatten.map AssetDelta.entry) id = Ledger.net (m.map faucetEntry) id) ∧
      (ls.flatten.map (·.asset.id)).Sublist ((m.map Ledger.Entry.key).map .fungible) := by
  induction m with
  | nil => exact ⟨[], rfl, fun _ => rfl, List.Sublist.refl _⟩
  | cons e m ih =>
    obtain ⟨l, hl, hnet, hkeys⟩ := fungibleDelta_of law (h e List.mem_cons_self)
    obtain ⟨ls, hls, hnets, hkeyss⟩ := ih fun x hx => h x (.tail _ hx)
    refine ⟨l :: ls, ?_, fun id => ?_, ?_⟩
    · rw [List.mapM_cons, hl, hls]
      rfl
    · rw [List.flatten_cons, List.map_append, Ledger.net_append, hnet, hnets, ← Ledger.net_append]
      rfl
    · rw [List.flatten_cons, List.map_append]
      exact hkeys.append hkeyss

/-- A vault that goes through deltas, by the units each moves. -/
inductive VaultSteps (law : L.Composes) : P.Vault → List (AccountVaultDelta P) → P.Vault → Prop where
  | nil (v : P.Vault) : VaultSteps law v [] v
  | cons {v v₁ v' : P.Vault} {d : AccountVaultDelta P} {ds : List (AccountVaultDelta P)}
      (step : ∀ id, (law.units v₁ id : Int) = law.units v id + Ledger.net d.entries id)
      (rest : VaultSteps law v₁ ds v') : VaultSteps law v (d :: ds) v'

namespace VaultSteps
variable {law : L.Composes} {v v' : P.Vault} {ds : List (AccountVaultDelta P)}

theorem net_eq (h : VaultSteps law v ds v') (id : AssetId P) : (law.units v' id : Int) =
    law.units v id + Ledger.net ((ds.flatMap (·.assets)).map AssetDelta.entry) id := by
  induction h with
  | nil v => simp
  | cons step rest ih =>
    rw [List.flatMap_cons, List.map_append, Ledger.net_append, ih, step]
    exact add_assoc _ _ _

/-- Wherever the list of asset deltas is cut, the vault could hold the net: a
delta has an asset once, so it has moved by then as the delta moves it, or not
yet. -/
theorem within (h : VaultSteps law v ds v') {l₁ l₂ : List (AssetDelta P)}
    (hl : ds.flatMap (·.assets) = l₁ ++ l₂) (id : AssetId P) :
    0 ≤ law.units v id + Ledger.net (l₁.map AssetDelta.entry) id ∧
      law.units v id + Ledger.net (l₁.map AssetDelta.entry) id ≤ L.limit id := by
  have hheld : ∀ v : P.Vault, (0 : Int) ≤ law.units v id ∧ (law.units v id : Int) ≤ L.limit id :=
    fun v => ⟨Int.natCast_nonneg _, by exact_mod_cast law.units_le v id⟩
  induction h generalizing l₁ with
  | nil v =>
    obtain ⟨rfl, rfl⟩ := List.append_eq_nil_iff.mp hl.symm
    simpa using law.units_le v id
  | @cons v v₁ v' d ds step rest ih =>
    rw [List.flatMap_cons] at hl
    rcases List.append_eq_append_iff.mp hl with ⟨l, rfl, hrest⟩ | ⟨l, hd, _⟩
    · rw [List.map_append, Ledger.net_append, ← add_assoc]
      have hstep : (law.units v id : Int) + Ledger.net (d.assets.map AssetDelta.entry) id =
          law.units v₁ id := (step id).symm
      rw [hstep]
      exact ih hrest
    · have hcut : d.entries = l₁.map AssetDelta.entry ++ l.map AssetDelta.entry := by
        rw [AccountVaultDelta.entries, hd, List.map_append]
      have hnodup := d.nodup_entries
      rw [hcut] at hnodup
      have hstep := step id
      rcases Ledger.net_of_append hnodup id with hnet | hnet
      · rw [hnet, add_zero]
        exact hheld v
      · rw [hnet, ← hcut, ← hstep]
        exact hheld v₁

end VaultSteps

/-- Deltas that can be applied one after the other can be netted. -/
theorem mergeVaultDeltas_of {law : L.Composes} {v v' : P.Vault} {ds : List (AccountVaultDelta P)}
    (h : VaultSteps law v ds v') : ∃ d, mergeVaultDeltas L ds = some d ∧
      ∀ id, (law.units v' id : Int) = law.units v id + Ledger.net d.entries id := by
  have hempty : (⟨[], []⟩ : NettedAssets P).Keyed := ⟨.nil, .nil, fun _ hd => by cases hd⟩
  obtain ⟨acc, hfold, hacc, hnet⟩ := hempty.foldlM_of (l := ds.flatMap (·.assets))
    fun l₁ l₂ hl asset => by
      have hwithin := h.within hl (.nonFungible asset)
      have hunits := law.units_le v (.nonFungible asset)
      simp only [AccountLibrary.limit] at hwithin hunits
      simp only [NettedAssets.net, List.map_nil, Ledger.net_nil]
      omega
  have htotal : ∀ id, (law.units v' id : Int) = law.units v id + acc.net id := by
    intro id
    rw [h.net_eq id, hnet id]
    simp [NettedAssets.net]
  have hamounts : ∀ e ∈ acc.fungible, e.amount.natAbs ≤ L.maxAmount := by
    intro e he
    have hunits := htotal (.fungible e.key)
    have hlow := law.units_le v (.fungible e.key)
    have hhigh := law.units_le v' (.fungible e.key)
    have hsingle : Ledger.net (acc.nonFungible.map AssetDelta.entry) (.fungible e.key) = 0 := by
      refine Ledger.net_eq_zero fun hmem => ?_
      rw [List.map_map] at hmem
      obtain ⟨d, hd, hid⟩ := List.mem_map.mp hmem
      obtain ⟨asset, hasset⟩ := hacc.single d hd
      simp [AssetDelta.entry, hasset] at hid
    have hamount : acc.net (.fungible e.key) = e.amount := by
      rw [NettedAssets.net, hsingle, zero_add, net_faucetEntry]
      exact Ledger.net_of_mem hacc.fungible he
    rw [hamount] at hunits
    simp only [AccountLibrary.limit] at hlow hhigh
    omega
  obtain ⟨ls, hls, hnets, hkeys⟩ := mapM_fungibleDelta_of law hamounts
  have hdistinct : ((acc.nonFungible ++ ls.flatten).map (·.asset.id)).Nodup := by
    rw [List.map_append, List.nodup_append']
    refine ⟨hacc.nonFungible, (hacc.fungible.map (fun _ _ => AssetId.fungible.inj)).sublist hkeys, ?_⟩
    intro id hid hid'
    obtain ⟨d, hd, rfl⟩ := List.mem_map.mp hid
    obtain ⟨asset, hasset⟩ := hacc.single d hd
    obtain ⟨faucetId, _, hfaucet⟩ := List.mem_map.mp (hkeys.subset hid')
    rw [hasset] at hfaucet
    cases hfaucet
  refine ⟨⟨acc.nonFungible ++ ls.flatten, hdistinct⟩, ?_, fun id => ?_⟩
  · unfold mergeVaultDeltas AccountVaultDelta.new
    rw [hfold, Option.bind_eq_bind, Option.bind_some, hls, Option.bind_eq_bind, Option.bind_some,
      dif_pos hdistinct]
  · rw [htotal id, AccountVaultDelta.entries, List.map_append, Ledger.net_append, hnets]
    rfl

end Guardian
