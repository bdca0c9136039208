import Guardian.Account.Sequence
import Guardian.Client.GetDeltas

/- Deltas that apply in order against the one delta `merge_account_deltas` makes of
   them. A delta that applies is empty and changes nothing, or raises the nonce
   (`applied_cases`); so the account's nonce rises along the list, unless all of it
   is empty. In the first case the merged delta raises the nonce by the sum, which
   does not wrap, and leads where the parts lead (`merged_of_parts`). In the second
   it is empty itself. -/
namespace Guardian

open Signing (Felt)

variable {P : AccountTypes} {L : AccountLibrary P}

/-- What the miden crates say of nonces and of what is empty. -/
structure AccountLibrary.NonceRules (L : AccountLibrary P) : Prop where
  /-- `apply_patch` refuses a nonce that is not above the account's. -/
  applyPatch_raises : ∀ {a p a' nonce}, L.applyPatch a p = some a' → p.finalNonce = some nonce →
    a.nonce < nonce
  deltaIsEmpty_iff : ∀ {d}, L.deltaIsEmpty d = true ↔
    L.storagePatchIsEmpty d.storage = true ∧ d.vault.assets = [] ∧
      L.codePatchIsEmpty d.code = true ∧ d.nonceDelta.val = 0
  storagePatchIsEmpty_empty : L.storagePatchIsEmpty L.emptyStoragePatch = true
  mergeStorage_empty : ∀ {p q}, L.storagePatchIsEmpty p = true → L.storagePatchIsEmpty q = true →
    ∃ r, L.mergeStorage p q = some r ∧ L.storagePatchIsEmpty r = true
  mergeCode_empty : ∀ {p q}, L.codePatchIsEmpty p = true → L.codePatchIsEmpty q = true →
    L.codePatchIsEmpty (L.mergeCode p q) = true
  acceptsDelta_empty : ∀ {d}, L.deltaIsEmpty d = true → L.acceptsDelta d = true
  /-- An empty patch is a patch, and changes nothing. -/
  applyPatch_empty : ∀ {a p}, p.id = a.id → L.storagePatchIsEmpty p.storage = true →
    p.vault = [] → L.codePatchIsEmpty p.code = true → p.finalNonce = none →
    L.acceptsPatch p = true ∧ L.applyPatch a p = some a

/-! ## One delta -/

section One
variable {a a' : Account P} {d : AccountDelta P}

/-- An empty delta can be applied, and changes nothing. -/
theorem applyAccountDelta_empty (rules : L.NonceRules) (hnew : a.isNew = false) (hid : a.id = d.id)
    (hempty : L.deltaIsEmpty d = true) : applyAccountDelta L a d = some a := by
  obtain ⟨hstorage, hvault, hcode, hnonce⟩ := rules.deltaIsEmpty_iff.mp hempty
  obtain ⟨merged, hmerged, hmergedEmpty⟩ :=
    rules.mergeStorage_empty hstorage rules.storagePatchIsEmpty_empty
  have hpatch : vaultPatchFromDelta L a.vault d = some [] := by
    unfold vaultPatchFromDelta AccountVaultDelta.addedAssets AccountVaultDelta.removedAssets
    rw [hvault]
    rfl
  let patch : AccountPatch P := ⟨d.id, merged, [], d.code, none⟩
  obtain ⟨haccepts, happly⟩ :=
    rules.applyPatch_empty (p := patch) hid.symm hmergedEmpty rfl hcode rfl
  have hparts : accountPatchFromParts L a.vault a.nonce d L.emptyStoragePatch = some patch := by
    unfold accountPatchFromParts AccountPatch.new
    rw [hpatch, Option.bind_eq_bind, Option.bind_some, hmerged, Option.bind_eq_bind,
      Option.bind_some, hempty, hmergedEmpty]
    exact if_pos haccepts
  rw [applyAccountDelta, applyAccountDeltaWithStoragePatch_eq hnew, if_neg (not_not.mpr hid), hparts,
    Option.bind_some, happly]

/-- A delta that applies is empty, or raises the nonce. -/
theorem applied_cases (law : L.Composes) (rules : L.NonceRules) (hnew : a.isNew = false)
    (h : applyAccountDelta L a d = some a') :
    (L.deltaIsEmpty d = true ∧ a' = a) ∨
      (a.nonce < a'.nonce ∧ a'.nonce = a.nonce + d.nonceDelta) := by
  have hid := (applyAccountDelta_ok law hnew h).id_eq
  by_cases hempty : L.deltaIsEmpty d = true
  · rw [applyAccountDelta_empty rules hnew hid hempty] at h
    exact .inl ⟨hempty, (Option.some.inj h).symm⟩
  · rw [applyAccountDelta, applyAccountDeltaWithStoragePatch_eq hnew,
      if_neg (not_not.mpr hid)] at h
    obtain ⟨patch, hpatch, happly⟩ := Option.bind_eq_some_iff.mp h
    obtain ⟨vaultPatch, _, hpatch⟩ := Option.bind_eq_some_iff.mp hpatch
    obtain ⟨storagePatch, _, hpatch⟩ := Option.bind_eq_some_iff.mp hpatch
    obtain rfl := AccountPatch.new_eq_some hpatch
    have hfinal : (if L.deltaIsEmpty d && L.storagePatchIsEmpty storagePatch then none
        else some (a.nonce + d.nonceDelta)) = some (a.nonce + d.nonceDelta) := by
      rw [if_neg (by simp [hempty])]
    have hnonce : a'.nonce = a.nonce + d.nonceDelta := by
      rw [(law.applyPatch_ok happly).2.2.2.2]
      show Option.getD _ _ = _
      rw [hfinal, Option.getD_some]
    exact .inr ⟨hnonce ▸ rules.applyPatch_raises happly hfinal, hnonce⟩

end One

/-! ## A list of deltas -/

section Many
variable {a a' : Account P} {ds : List (AccountDelta P)}

/-- The parts of an account deltas were applied to in order. -/
structure AppliedInOrder (law : L.Composes) (a : Account P) (ds : List (AccountDelta P))
    (a' : Account P) : Prop where
  ids : ∀ d ∈ ds, a.id = d.id
  id_kept : a'.id = a.id
  storage : patchDeltas law a.storage ds = some a'.storage
  vault : VaultSteps law a.vault (ds.map (·.vault)) a'.vault
  code : a'.code = ds.foldl (fun c d => law.applyCode d.code c) a.code
  nonce : ds.foldl (fun n d => n + d.nonceDelta) a.nonce = a'.nonce
  raises : (a' = a ∧ ∀ d ∈ ds, L.deltaIsEmpty d = true) ∨ a.nonce < a'.nonce

theorem add_of_val_eq_zero (n : Felt) {m : Felt} (h : m.val = 0) : n + m = n := by
  apply Fin.ext
  rw [Fin.val_add, h, Nat.add_zero, Nat.mod_eq_of_lt n.isLt]

theorem appliedInOrder (law : L.Composes) (rules : L.NonceRules) (hnew : a.isNew = false)
    (h : ds.foldlM (applyAccountDelta L) a = some a') : AppliedInOrder law a ds a' := by
  induction ds generalizing a with
  | nil =>
    cases h
    exact
      { ids := fun d hd => absurd hd List.not_mem_nil
        id_kept := rfl
        storage := rfl
        vault := .nil _
        code := rfl
        nonce := rfl
        raises := .inl ⟨rfl, fun d hd => absurd hd List.not_mem_nil⟩ }
  | cons d ds ih =>
    obtain ⟨a₁, happly, hrest⟩ := Option.bind_eq_some_iff.mp h
    have hd := applyAccountDelta_ok law hnew happly
    have hcases := applied_cases law rules hnew happly
    have hnew₁ : a₁.isNew = false := by
      rcases hcases with ⟨_, rfl⟩ | ⟨hlt, _⟩
      · exact hnew
      · exact ServerChain.not_isNew hlt
    have hds := ih hnew₁ hrest
    have hnonce : a.nonce + d.nonceDelta = a₁.nonce := by
      rcases hcases with ⟨hempty, rfl⟩ | ⟨_, heq⟩
      · exact add_of_val_eq_zero _ (rules.deltaIsEmpty_iff.mp hempty).2.2.2
      · exact heq.symm
    have hstorage : law.applyStorage d.storage a.storage = some a₁.storage := by
      obtain ⟨s, hs, hs'⟩ := Option.bind_eq_some_iff.mp hd.storage
      rw [law.applyStorage_empty] at hs'
      rw [hs, hs']
    exact
      { ids := fun d' hd' => by
          rcases List.mem_cons.mp hd' with rfl | hd'
          · exact hd.id_eq
          · rw [← hd.id_kept]
            exact hds.ids d' hd'
        id_kept := hds.id_kept.trans hd.id_kept
        storage := Option.bind_eq_some_iff.mpr ⟨a₁.storage, hstorage, hds.storage⟩
        vault := .cons hd.vault hds.vault
        code := by
          rw [hds.code, hd.code]
          rfl
        nonce := by
          rw [List.foldl_cons, hnonce]
          exact hds.nonce
        raises := by
          rcases hcases with ⟨hempty, rfl⟩ | ⟨hlt, _⟩
          · rcases hds.raises with ⟨heq, hall⟩ | hlt
            · refine .inl ⟨heq, fun d' hd' => ?_⟩
              rcases List.mem_cons.mp hd' with rfl | hd'
              · exact hempty
              · exact hall d' hd'
            · exact .inr hlt
          · rcases hds.raises with ⟨rfl, _⟩ | hlt'
            · exact .inr hlt
            · exact .inr (Fin.lt_trans hlt hlt') }

/-- Empty deltas merge into an empty one. -/
theorem mergeAccountDeltas_empty (rules : L.NonceRules) {first : AccountDelta P}
    {deltas : List (AccountDelta P)} (h : ∀ d ∈ first :: deltas, L.deltaIsEmpty d = true) :
    ∃ d, mergeAccountDeltas L (first :: deltas) = some d ∧ d.id = first.id ∧
      L.deltaIsEmpty d = true := by
  have hparts : ∀ {deltas : List (AccountDelta P)} {p : P.StoragePatch} {c : P.CodePatch} {n : Felt},
      (∀ d ∈ deltas, L.deltaIsEmpty d = true) → L.storagePatchIsEmpty p = true →
      L.codePatchIsEmpty c = true → n.val = 0 →
      ∃ q, deltas.foldlM (fun merged d => L.mergeStorage merged d.storage) p = some q ∧
        L.storagePatchIsEmpty q = true ∧
        L.codePatchIsEmpty (deltas.foldl (fun merged d => L.mergeCode merged d.code) c) = true ∧
        (deltas.foldl (fun sum d => sum + d.nonceDelta) n).val = 0 := by
    intro deltas
    induction deltas with
    | nil => exact fun _ hp hc hn => ⟨_, rfl, hp, hc, hn⟩
    | cons d deltas ih =>
      intro p c n h hp hc hn
      obtain ⟨hstorage, _, hcode, hnonce⟩ := rules.deltaIsEmpty_iff.mp (h d List.mem_cons_self)
      obtain ⟨r, hr, hrEmpty⟩ := rules.mergeStorage_empty hp hstorage
      obtain ⟨q, hq, hqEmpty, hcodes, hsum⟩ := ih (fun d' hd' => h d' (List.mem_cons_of_mem _ hd'))
        hrEmpty (rules.mergeCode_empty hc hcode)
        (show (n + d.nonceDelta).val = 0 by rw [add_of_val_eq_zero n hnonce, hn])
      exact ⟨q, Option.bind_eq_some_iff.mpr ⟨r, hr, hq⟩, hqEmpty, hcodes, hsum⟩
  obtain ⟨hstorage, _, hcode, hnonce⟩ := rules.deltaIsEmpty_iff.mp (h first List.mem_cons_self)
  obtain ⟨q, hq, hqEmpty, hcodes, hsum⟩ :=
    hparts (fun d hd => h d (List.mem_cons_of_mem _ hd)) hstorage hcode hnonce
  have hassets : ((first :: deltas).map (·.vault)).flatMap (·.assets) = [] := by
    rw [List.flatMap_eq_nil_iff]
    intro vault hvault
    obtain ⟨d, hd, rfl⟩ := List.mem_map.mp hvault
    exact (rules.deltaIsEmpty_iff.mp (h d hd)).2.1
  have hvault : mergeVaultDeltas L ((first :: deltas).map (·.vault)) = some ⟨[], .nil⟩ := by
    unfold mergeVaultDeltas
    rw [hassets]
    rfl
  have hempty := rules.deltaIsEmpty_iff.mpr
    (show L.storagePatchIsEmpty (⟨first.id, q, ⟨[], .nil⟩, _, _⟩ : AccountDelta P).storage = true ∧
      _ from ⟨hqEmpty, rfl, hcodes, hsum⟩)
  exact ⟨_, mergeAccountDeltas_of hq hvault (rules.acceptsDelta_empty hempty), rfl, hempty⟩

/-- Deltas that apply in order merge into one, which leads to the same
account. -/
theorem merged_delta_leads_there (L : AccountLibrary P) (law : L.Composes) (rules : L.NonceRules)
    (a a' : Account P) (ds : List (AccountDelta P)) (hne : ds ≠ []) (hnew : a.isNew = false)
    (h : ds.foldlM (applyAccountDelta L) a = some a') :
    ∃ d, mergeAccountDeltas L ds = some d ∧ applyAccountDelta L a d = some a' := by
  have hparts := appliedInOrder law rules hnew h
  cases ds with
  | nil => exact absurd rfl hne
  | cons first deltas =>
    have hid := hparts.ids first List.mem_cons_self
    rcases hparts.raises with ⟨rfl, hall⟩ | hlt
    · obtain ⟨d, hmerged, hdid, hempty⟩ := mergeAccountDeltas_empty rules hall
      exact ⟨d, hmerged, applyAccountDelta_empty rules hnew (hdid ▸ hid) hempty⟩
    · obtain ⟨d, hmerged, happly⟩ :=
        merged_of_parts law hnew hid hparts.storage hparts.vault hparts.nonce hlt
      refine ⟨d, hmerged, happly.trans ?_⟩
      rw [← hparts.code, ← hparts.id_kept]

end Many

namespace Demo

/-- The ledger library, with empty deltas. -/
noncomputable def emptyingLibrary : AccountLibrary ledgerTypes :=
  { ledgerLibrary with
    acceptsDelta := fun d => d.nonceDelta.val ≠ 0 ∨
      (d.storage = ∅ ∧ d.vault.assets.isEmpty ∧ d.code.isNone) }

noncomputable def emptyingComposes : emptyingLibrary.Composes :=
  { ledgerLawful.toComposes with
    acceptsDelta_of := fun h => by simp [emptyingLibrary, h] }

theorem emptyingRules : emptyingLibrary.NonceRules where
  applyPatch_raises := fun {a p a' nonce} h hnonce => by
    simp only [emptyingLibrary, ledgerLibrary, patchAccount] at h
    split at h
    · next hok => simpa [hnonce] using hok.2.2
    · cases h
  deltaIsEmpty_iff := fun {d} => by
    simp only [emptyingLibrary, ledgerLibrary, decide_eq_true_eq, List.isEmpty_iff]
    tauto
  storagePatchIsEmpty_empty := by simp [emptyingLibrary, ledgerLibrary]
  mergeStorage_empty := fun {p q} hp hq => by
    simp only [emptyingLibrary, ledgerLibrary, decide_eq_true_eq] at hp hq ⊢
    exact ⟨p ∪ q, rfl, by rw [hp, hq, Finset.union_empty]⟩
  mergeCode_empty := fun {p q} hp hq => by
    simp only [emptyingLibrary, ledgerLibrary, Option.isNone_iff_eq_none] at hp hq ⊢
    rw [hp, hq]
    rfl
  acceptsDelta_empty := fun {d} h => by
    simp only [emptyingLibrary, ledgerLibrary, decide_eq_true_eq] at h ⊢
    exact .inr h.2
  applyPatch_empty := fun {a p} hid hstorage hvault hcode hnonce => by
    simp only [emptyingLibrary, ledgerLibrary, decide_eq_true_eq,
      Option.isNone_iff_eq_none] at hstorage hcode ⊢
    refine ⟨trivial, ?_⟩
    have hunits : ∀ f, leftUnits a.vault p.vault f = a.vault f := by
      intro f
      rw [hvault]
      rfl
    have hok : p.id = a.id ∧ (∀ f, leftUnits a.vault p.vault f ≤ maxAmount) ∧
        p.finalNonce.all (a.nonce < ·) = true :=
      ⟨hid, fun f => by rw [hunits f]; exact Nat.le_of_lt_succ (a.vault f).isLt, by rw [hnonce]; rfl⟩
    rw [patchAccount, dif_pos hok]
    simp [hunits, hstorage, hcode, hnonce]

/-- Four units leave, and one comes back. -/
def leaveAndReturn : List (AccountDelta ledgerTypes) :=
  [transferred.accountDelta,
    { transferred.accountDelta with
      vault := ⟨[⟨.add, .fungible true 1⟩], List.nodup_singleton _⟩ }]

end Demo

/-- Two deltas of one asset, merged. -/
theorem merged_delta_leads_there_netted :
    ∃ a' d, Demo.leaveAndReturn.foldlM (applyAccountDelta Demo.emptyingLibrary) (Demo.holder ∅) =
        some a' ∧
      mergeAccountDeltas Demo.emptyingLibrary Demo.leaveAndReturn = some d ∧
      applyAccountDelta Demo.emptyingLibrary (Demo.holder ∅) d = some a' := by
  have hisSome : (Demo.leaveAndReturn.foldlM (applyAccountDelta Demo.emptyingLibrary)
      (Demo.holder ∅)).isSome = true := by
    decide
  obtain ⟨a', ha'⟩ := Option.isSome_iff_exists.mp hisSome
  obtain ⟨d, hmerged, happly⟩ := merged_delta_leads_there Demo.emptyingLibrary
    Demo.emptyingComposes Demo.emptyingRules (Demo.holder ∅) a' Demo.leaveAndReturn nofun rfl ha'
  exact ⟨a', d, ha', hmerged, happly⟩

end Guardian
