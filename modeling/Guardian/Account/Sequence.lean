import Guardian.Account.Merge

/- The server goes through summaries one by one (`apply_summary`), a client
   applies their deltas merged into one. The account is the same but for what
   the server adds: for each summary whose base has multisig authentication, an
   entry of the executed transactions map. `recordedKeys` are those entries that
   no later delta overwrites, and `ServerChain.storage` puts them on top of what
   the deltas themselves lead to. -/
namespace Guardian

open Signing (Felt)

variable {P : AccountTypes} {L : AccountLibrary P}

/-! ## One delta -/

section One
variable {a a' : Account P} {d : AccountDelta P} {extra : P.StoragePatch}

/-- The parts of an account a delta was applied to. -/
structure AppliedDelta (law : L.Composes) (a : Account P) (d : AccountDelta P)
    (extra : P.StoragePatch) (a' : Account P) : Prop where
  id_eq : a.id = d.id
  id_kept : a'.id = a.id
  storage : (law.applyStorage d.storage a.storage).bind (law.applyStorage extra) = some a'.storage
  vault : ∀ id, (law.units a'.vault id : Int) =
    law.units a.vault id + Ledger.net d.vault.entries id
  code : a'.code = law.applyCode d.code a.code
  nonce : a'.nonce = a.nonce ∨ a'.nonce = a.nonce + d.nonceDelta

theorem not_isAccountCreation (hnew : a.isNew = false) : isAccountCreation L a d = false := by
  simp [isAccountCreation, hnew]

theorem not_rebuildsNewAccount (hnew : a.isNew = false) : rebuildsNewAccount a d = false := by
  simp [rebuildsNewAccount, hnew]

/-- An account that is not new is patched. -/
theorem applyAccountDeltaWithStoragePatch_eq (hnew : a.isNew = false) :
    applyAccountDeltaWithStoragePatch L a d extra =
      if a.id ≠ d.id then none
      else (accountPatchFromParts L a.vault a.nonce d extra).bind (L.applyPatch a) := by
  unfold applyAccountDeltaWithStoragePatch accountPatchFromDelta
  rw [not_isAccountCreation hnew, not_rebuildsNewAccount hnew, if_neg Bool.false_ne_true]
  by_cases hid : a.id ≠ d.id
  · rw [if_pos hid, if_pos hid]
    rfl
  · rw [if_neg hid, if_neg hid]
    rfl

theorem AccountPatch.new_eq_some {patch patch' : AccountPatch P}
    (h : AccountPatch.new L patch = some patch') : patch' = patch := by
  unfold AccountPatch.new at h
  split at h
  · exact (Option.some.inj h).symm
  · cases h

theorem applyAccountDelta_ok (law : L.Composes) (hnew : a.isNew = false)
    (h : applyAccountDeltaWithStoragePatch L a d extra = some a') :
    AppliedDelta law a d extra a' := by
  rw [applyAccountDeltaWithStoragePatch_eq hnew] at h
  split at h
  · cases h
  next hid =>
  obtain ⟨patch, hpatch, happly⟩ := Option.bind_eq_some_iff.mp h
  obtain ⟨vaultPatch, hvault, hpatch⟩ := Option.bind_eq_some_iff.mp hpatch
  obtain ⟨storagePatch, hstorage, hpatch⟩ := Option.bind_eq_some_iff.mp hpatch
  obtain rfl := AccountPatch.new_eq_some hpatch
  obtain ⟨hs, hv, hc, hi, hn⟩ := law.applyPatch_ok happly
  exact
    { id_eq := not_not.mp hid
      id_kept := hi
      storage := by rw [← hs, law.applyStorage_merge hstorage]
      vault := fun id => by
        rw [hv id]
        exact (vaultPatchFromDelta_ok law hvault id).1
      code := hc
      nonce := by
        rw [hn]
        dsimp only
        split
        · exact .inl rfl
        · exact .inr rfl }

/-- A delta that raises the nonce can be applied where its parts can. -/
theorem applyAccountDelta_of (law : L.Composes) (hnew : a.isNew = false) (hid : a.id = d.id)
    {s s' : P.Storage} (hs : law.applyStorage d.storage a.storage = some s)
    (hs' : law.applyStorage extra s = some s')
    (hvault : ∀ id, 0 ≤ law.units a.vault id + Ledger.net d.vault.entries id ∧
      law.units a.vault id + Ledger.net d.vault.entries id ≤ L.limit id)
    (hdelta : d.nonceDelta.val ≠ 0) (hnonce : a.nonce < a.nonce + d.nonceDelta) :
    ∃ a', applyAccountDeltaWithStoragePatch L a d extra = some a' ∧
      a'.nonce = a.nonce + d.nonceDelta := by
  obtain ⟨vaultPatch, hvaultPatch⟩ := vaultPatchFromDelta_of law hvault
  obtain ⟨storagePatch, hstorage⟩ := law.mergeStorage_of hs hs'
  have hnonempty : (L.deltaIsEmpty d && L.storagePatchIsEmpty storagePatch) = false := by
    rw [Bool.and_eq_false_iff]
    left
    rw [Bool.eq_false_iff]
    exact fun hempty => hdelta (law.deltaIsEmpty_nonce hempty)
  have hpos : 0 < a.nonce.val := by
    simp only [Account.isNew, beq_eq_false_iff_ne] at hnew
    omega
  let patch : AccountPatch P :=
    ⟨d.id, storagePatch, vaultPatch, d.code, some (a.nonce + d.nonceDelta)⟩
  have haccepts : L.acceptsPatch patch = true := by
    refine law.acceptsPatch_of rfl ?_
    have hlt := Fin.lt_def.mp hnonce
    omega
  have hpatch : accountPatchFromParts L a.vault a.nonce d extra = some patch := by
    unfold accountPatchFromParts AccountPatch.new
    rw [hvaultPatch, Option.bind_eq_bind, Option.bind_some, hstorage, Option.bind_eq_bind,
      Option.bind_some, hnonempty]
    exact if_pos haccepts
  have happly : law.applyStorage patch.storage a.storage = some s' := by
    rw [law.applyStorage_merge hstorage, hs, Option.bind_some, hs']
  obtain ⟨a', ha'⟩ := law.applyPatch_of (p := patch) hid.symm happly
    (fun id n hn => (vaultPatchFromDelta_ok law hvaultPatch id).2 n hn) rfl hnonce
  refine ⟨a', ?_, (law.applyPatch_ok ha').2.2.2.2⟩
  rw [applyAccountDeltaWithStoragePatch_eq hnew, if_neg (not_not.mpr hid), hpatch, Option.bind_some,
    ha']

end One

/-! ## Several deltas -/

section Parts

/-- The storage the deltas' own patches lead to. -/
def patchDeltas (law : L.Composes) (s : P.Storage) (deltas : List (AccountDelta P)) :
    Option P.Storage :=
  deltas.foldlM (fun s d => law.applyStorage d.storage s) s

variable {law : L.Composes}

/-- Merged storage patches lead where they lead one after the other. -/
theorem mergeStorage_foldlM {deltas : List (AccountDelta P)} {p : P.StoragePatch}
    {t t₁ t' : P.Storage} (hp : law.applyStorage p t = some t₁)
    (h : patchDeltas law t₁ deltas = some t') :
    ∃ q, deltas.foldlM (fun merged d => L.mergeStorage merged d.storage) p = some q ∧
      law.applyStorage q t = some t' := by
  induction deltas generalizing p t₁ with
  | nil =>
    cases h
    exact ⟨p, rfl, hp⟩
  | cons d deltas ih =>
    obtain ⟨t₂, h₂, h'⟩ := Option.bind_eq_some_iff.mp h
    obtain ⟨r, hr⟩ := law.mergeStorage_of hp h₂
    have happly : law.applyStorage r t = some t₂ := by
      rw [law.applyStorage_merge hr, hp, Option.bind_some]
      exact h₂
    obtain ⟨q, hq, hqt⟩ := ih happly h'
    exact ⟨q, Option.bind_eq_some_iff.mpr ⟨r, hr, hq⟩, hqt⟩

theorem applyCode_foldl (law : L.Composes) (deltas : List (AccountDelta P)) (p : P.CodePatch)
    (c : P.Code) :
    law.applyCode (deltas.foldl (fun merged d => L.mergeCode merged d.code) p) c =
      deltas.foldl (fun c d => law.applyCode d.code c) (law.applyCode p c) := by
  induction deltas generalizing p with
  | nil => rfl
  | cons d deltas ih => rw [List.foldl_cons, ih, law.applyCode_merge, List.foldl_cons]

theorem add_nonce_foldl (deltas : List (AccountDelta P)) (n m : Felt) :
    n + deltas.foldl (fun sum d => sum + d.nonceDelta) m =
      deltas.foldl (fun n d => n + d.nonceDelta) (n + m) := by
  induction deltas generalizing m with
  | nil => rfl
  | cons d deltas ih => rw [List.foldl_cons, ih, List.foldl_cons, add_assoc]

theorem mergeAccountDeltas_of {first : AccountDelta P} {deltas : List (AccountDelta P)}
    {storage : P.StoragePatch} {vault : AccountVaultDelta P}
    (hstorage : deltas.foldlM (fun merged d => L.mergeStorage merged d.storage) first.storage =
      some storage)
    (hvault : mergeVaultDeltas L ((first :: deltas).map (·.vault)) = some vault)
    (haccepts : L.acceptsDelta
      ⟨first.id, storage, vault, deltas.foldl (fun merged d => L.mergeCode merged d.code) first.code,
        deltas.foldl (fun sum d => sum + d.nonceDelta) first.nonceDelta⟩ = true) :
    mergeAccountDeltas L (first :: deltas) = some
      ⟨first.id, storage, vault, deltas.foldl (fun merged d => L.mergeCode merged d.code) first.code,
        deltas.foldl (fun sum d => sum + d.nonceDelta) first.nonceDelta⟩ := by
  simp only [mergeAccountDeltas]
  rw [hstorage, Option.bind_eq_bind, Option.bind_some, hvault]
  exact if_pos haccepts

/-- Deltas that raise the nonce merge into one, which leads where their parts
lead. -/
theorem merged_of_parts (law : L.Composes) {a : Account P} {first : AccountDelta P}
    {deltas : List (AccountDelta P)} {storage : P.Storage} {vault : P.Vault} {nonce : Felt}
    (hnew : a.isNew = false) (hid : a.id = first.id)
    (hstorage : patchDeltas law a.storage (first :: deltas) = some storage)
    (hsteps : VaultSteps law a.vault ((first :: deltas).map (·.vault)) vault)
    (hnonce : (first :: deltas).foldl (fun n d => n + d.nonceDelta) a.nonce = nonce)
    (hlt : a.nonce < nonce) :
    ∃ d, mergeAccountDeltas L (first :: deltas) = some d ∧ applyAccountDelta L a d =
      some ⟨a.id, vault, storage,
        (first :: deltas).foldl (fun c d => law.applyCode d.code c) a.code, nonce⟩ := by
  obtain ⟨vaultDelta, hvault, hunits⟩ := mergeVaultDeltas_of hsteps
  obtain ⟨t₁, ht₁, htrest⟩ := Option.bind_eq_some_iff.mp hstorage
  obtain ⟨q, hq, hqt⟩ := mergeStorage_foldlM ht₁ htrest
  let d : AccountDelta P :=
    { id := first.id
      storage := q
      vault := vaultDelta
      code := deltas.foldl (fun merged d => L.mergeCode merged d.code) first.code
      nonceDelta := deltas.foldl (fun sum d => sum + d.nonceDelta) first.nonceDelta }
  have hsum : a.nonce + d.nonceDelta = nonce := by
    rw [← hnonce]
    exact add_nonce_foldl deltas a.nonce first.nonceDelta
  have hraises : a.nonce < a.nonce + d.nonceDelta := hsum.symm ▸ hlt
  have hdelta : d.nonceDelta.val ≠ 0 := by
    intro hzero
    have hval := Fin.lt_def.mp hraises
    rw [Fin.val_add, hzero, Nat.add_zero, Nat.mod_eq_of_lt a.nonce.isLt] at hval
    exact lt_irrefl _ hval
  have hfits : ∀ id, 0 ≤ law.units a.vault id + Ledger.net d.vault.entries id ∧
      law.units a.vault id + Ledger.net d.vault.entries id ≤ L.limit id := by
    intro id
    rw [← hunits id]
    exact ⟨Int.natCast_nonneg _, by exact_mod_cast law.units_le vault id⟩
  obtain ⟨b, hb, hbn⟩ := applyAccountDelta_of (d := d) law hnew hid hqt
    (law.applyStorage_empty storage) hfits hdelta hraises
  have hparts := applyAccountDelta_ok law hnew hb
  have hbs : b.storage = storage := by
    have hb := hparts.storage
    rw [hqt, Option.bind_some, law.applyStorage_empty] at hb
    exact (Option.some.inj hb).symm
  have hbv : b.vault = vault := law.vault_ext fun id => by
    have hbunits := hparts.vault id
    rw [← hunits id] at hbunits
    exact_mod_cast hbunits
  have hbc : b.code = (first :: deltas).foldl (fun c d => law.applyCode d.code c) a.code := by
    rw [hparts.code]
    exact applyCode_foldl law deltas _ _
  refine ⟨d, mergeAccountDeltas_of hq hvault (law.acceptsDelta_of hdelta), ?_⟩
  rw [applyAccountDelta, hb, ← hparts.id_kept, ← hbs, ← hbv, ← hbc, ← hsum, ← hbn]

end Parts

/-! ## The server's sequence -/

/-- What the server adds to the storage of an account with this base. -/
def replayEntries (L : AccountLibrary P) (a : Account P) (s : P.Summary) :
    List (String × Word × Word) :=
  if a.hasMultisigAuth L then [(executedTransactionsSlot, L.summaryCommitment s, executedFlag)]
  else []

theorem applySummary_eq {a : Account P} (hnew : a.isNew = false) (s : P.Summary) :
    applySummary L (some a) s = (L.patchFromEntries (replayEntries L a s)).bind
      (applyAccountDeltaWithStoragePatch L a s.accountDelta) := by
  have hfull : (!L.codePatchIsEmpty s.accountDelta.code && (some a).all (·.isNew)) = false := by
    simp [hnew]
  unfold applySummary
  simp only [hfull, Bool.false_eq_true, if_false]
  rfl

/-- The accounts the server goes through; every transaction raises the nonce. -/
inductive ServerChain (L : AccountLibrary P) : Account P → List P.Summary → Account P → Prop where
  | done (a : Account P) : ServerChain L a [] a
  | step {a a₁ a' : Account P} {s : P.Summary} {rest : List P.Summary}
      (applied : applySummary L (some a) s = some a₁) (raises : a.nonce < a₁.nonce)
      (then_ : ServerChain L a₁ rest a') : ServerChain L a (s :: rest) a'

/-- The summaries the server records as executed that no later delta
overwrites. -/
def recordedKeys (L : AccountLibrary P) : Account P → List P.Summary → List Word
  | _, [] => []
  | a, s :: rest =>
    let later := match applySummary L (some a) s with
      | some next => recordedKeys L next rest
      | none => []
    if a.hasMultisigAuth L && rest.all (fun t => (L.patchedEntry t.accountDelta.storage
        executedTransactionsSlot (L.summaryCommitment s)).isNone) then
      L.summaryCommitment s :: later
    else later

/-- An entry after the deltas' own patches. -/
def patchedThrough (L : AccountLibrary P) (key : Word) (entry : Option Word)
    (summaries : List P.Summary) : Option Word :=
  summaries.foldl (fun entry s =>
    (L.patchedEntry s.accountDelta.storage executedTransactionsSlot key).getD entry) entry

/-! ## Storage -/

section Storage
variable (law : L.Lawful)

/-- The storage with a summary recorded as executed. -/
def recordExecuted (s : P.Storage) (key : Word) : Option P.Storage :=
  (L.patchFromEntries [(executedTransactionsSlot, key, executedFlag)]).bind
    (fun e => law.applyStorage e s)

/-- The storage the deltas' own patches lead to. -/
def patchAll (s : P.Storage) (summaries : List P.Summary) : Option P.Storage :=
  summaries.foldlM (fun s t => law.applyStorage t.accountDelta.storage s) s

/-- A patch of the account overwrites the record. -/
def overwrites (L : AccountLibrary P) (p : P.StoragePatch) (key : Word) : Bool :=
  (L.patchedEntry p executedTransactionsSlot key).isSome

variable {law} {s t : P.Storage} {key : Word}

theorem applyStorage_recordExecuted (h : recordExecuted law s key = some t) (p : P.StoragePatch) :
    law.applyStorage p t = if overwrites L p key then law.applyStorage p s
      else (law.applyStorage p s).bind (recordExecuted law · key) := by
  unfold recordExecuted at h ⊢
  obtain ⟨e, he, happly⟩ := Option.bind_eq_some_iff.mp h
  rw [law.applyStorage_comm he happly p]
  unfold overwrites
  simp only [he, Option.bind_some]
  cases L.patchedEntry p executedTransactionsSlot key with
  | none => rfl
  | some entry => rfl

theorem getMapItem_recordExecuted (h : recordExecuted law s key = some t) (key' : Word) :
    L.getMapItem t executedTransactionsSlot key' =
      if key = key' then some executedFlag else L.getMapItem s executedTransactionsSlot key' := by
  obtain ⟨e, he, happly⟩ := Option.bind_eq_some_iff.mp h
  rw [law.getMapItem_apply happly, law.patchedEntry_entry he]
  split
  · rfl
  · rfl

/-- Records go on top of a patch that leaves them alone. -/
theorem applyStorage_foldlM_recordExecuted {keys : List Word}
    (h : keys.foldlM (recordExecuted law) s = some t) (p : P.StoragePatch) :
    law.applyStorage p t = (law.applyStorage p s).bind (fun s' =>
      (keys.filter (fun key => !overwrites L p key)).foldlM (recordExecuted law) s') := by
  induction keys generalizing s with
  | nil =>
    cases h
    generalize law.applyStorage p t = applied
    cases applied with
    | none => rfl
    | some s' => rfl
  | cons key keys ih =>
    obtain ⟨s₁, h₁, h₂⟩ := Option.bind_eq_some_iff.mp h
    rw [ih h₂, applyStorage_recordExecuted h₁]
    cases hover : overwrites L p key with
    | true =>
      rw [if_pos rfl, List.filter_cons_of_neg (by simp [hover])]
    | false =>
      rw [if_neg Bool.false_ne_true, List.filter_cons_of_pos (by simp [hover]), Option.bind_assoc]
      rfl

theorem getMapItem_foldlM_recordExecuted {keys : List Word}
    (h : keys.foldlM (recordExecuted law) s = some t) (hkey : key ∈ keys ∨
      L.getMapItem s executedTransactionsSlot key = some executedFlag) :
    L.getMapItem t executedTransactionsSlot key = some executedFlag := by
  induction keys generalizing s with
  | nil =>
    cases h
    exact hkey.resolve_left List.not_mem_nil
  | cons k keys ih =>
    obtain ⟨s₁, h₁, h₂⟩ := Option.bind_eq_some_iff.mp h
    refine ih h₂ ?_
    rw [getMapItem_recordExecuted h₁]
    by_cases hk : k = key
    · exact .inr (if_pos hk)
    · rw [if_neg hk]
      exact hkey.imp_left fun hmem => (List.mem_cons.mp hmem).resolve_left (Ne.symm hk)

/-- Recording changes nothing exactly when everything was recorded. -/
theorem foldlM_recordExecuted_eq_self {keys : List Word}
    (h : keys.foldlM (recordExecuted law) s = some t) : t = s ↔
      ∀ key ∈ keys, L.getMapItem s executedTransactionsSlot key = some executedFlag := by
  constructor
  · rintro rfl key hkey
    exact getMapItem_foldlM_recordExecuted h (.inl hkey)
  · intro hall
    induction keys generalizing s with
    | nil =>
      cases h
      rfl
    | cons key keys ih =>
      obtain ⟨s₁, h₁, h₂⟩ := Option.bind_eq_some_iff.mp h
      obtain ⟨e, he, happly⟩ := Option.bind_eq_some_iff.mp h₁
      rw [law.applyStorage_entry he (hall key List.mem_cons_self)] at happly
      cases happly
      exact ih h₂ fun k hk => hall k (.tail _ hk)

theorem getMapItem_patchAll {summaries : List P.Summary} (h : patchAll law s summaries = some t)
    (key : Word) : L.getMapItem t executedTransactionsSlot key =
      patchedThrough L key (L.getMapItem s executedTransactionsSlot key) summaries := by
  induction summaries generalizing s with
  | nil =>
    cases h
    rfl
  | cons x rest ih =>
    obtain ⟨s₁, h₁, h₂⟩ := Option.bind_eq_some_iff.mp h
    rw [ih h₂, law.getMapItem_apply h₁]
    rfl

end Storage

/-! ## The sequence and the merged delta -/

/-- The record of the first summary, unless it is overwritten, and the later
ones. -/
theorem recordedKeys_cons {a a₁ : Account P} {s : P.Summary}
    (applied : applySummary L (some a) s = some a₁) (rest : List P.Summary) :
    recordedKeys L a (s :: rest) =
      (if a.hasMultisigAuth L then [L.summaryCommitment s] else []).filter (fun key =>
        rest.all (fun t => !overwrites L t.accountDelta.storage key)) ++ recordedKeys L a₁ rest := by
  simp only [recordedKeys, applied, overwrites, Option.not_isSome]
  cases a.hasMultisigAuth L with
  | false => rfl
  | true =>
    cases hall : rest.all (fun t => (L.patchedEntry t.accountDelta.storage
        executedTransactionsSlot (L.summaryCommitment s)).isNone) with
    | true => simp [hall]
    | false => simp [hall]

namespace ServerChain
variable {a a' : Account P} {summaries : List P.Summary} (law : L.Lawful)

theorem not_isNew {a₁ : Account P} (h : a.nonce < a₁.nonce) : a₁.isNew = false := by
  have hlt := Fin.lt_def.mp h
  simp only [Account.isNew, beq_eq_false_iff_ne]
  omega

/-- The server's step from an account that is not new. -/
theorem applied {a₁ : Account P} {s : P.Summary} (hnew : a.isNew = false)
    (h : applySummary L (some a) s = some a₁) : ∃ extra,
      L.patchFromEntries (replayEntries L a s) = some extra ∧
      AppliedDelta law.toComposes a s.accountDelta extra a₁ := by
  rw [applySummary_eq hnew] at h
  obtain ⟨extra, hextra, happly⟩ := Option.bind_eq_some_iff.mp h
  exact ⟨extra, hextra, applyAccountDelta_ok law.toComposes hnew happly⟩

/-- What the server's storage has over `t`, which the deltas alone lead to. -/
theorem storage_over (h : ServerChain L a summaries a') (hnew : a.isNew = false)
    {keys : List Word} {t : P.Storage} (ht : keys.foldlM (recordExecuted law) t = some a.storage) :
    ∃ t', patchAll law t summaries = some t' ∧
      (keys.filter (fun key => summaries.all (fun s =>
        !overwrites L s.accountDelta.storage key)) ++ recordedKeys L a summaries).foldlM
          (recordExecuted law) t' = some a'.storage := by
  induction h generalizing keys t with
  | done a =>
    refine ⟨t, rfl, ?_⟩
    simpa [recordedKeys] using ht
  | @step a a₁ a' s rest applied raises _ ih =>
    obtain ⟨extra, hextra, hdelta⟩ := ServerChain.applied law hnew applied
    obtain ⟨x, hx, hx'⟩ := Option.bind_eq_some_iff.mp hdelta.storage
    rw [applyStorage_foldlM_recordExecuted ht] at hx
    obtain ⟨t₁, ht₁, hkeys⟩ := Option.bind_eq_some_iff.mp hx
    -- the record of this summary goes on top, where there is one
    have hrecord : ((keys.filter (fun key => !overwrites L s.accountDelta.storage key)) ++
        if a.hasMultisigAuth L then [L.summaryCommitment s] else []).foldlM
          (recordExecuted law) t₁ = some a₁.storage := by
      rw [List.foldlM_append, hkeys]
      unfold replayEntries at hextra
      cases hauth : a.hasMultisigAuth L with
      | true =>
        rw [hauth, if_pos rfl] at hextra
        show (recordExecuted law x (L.summaryCommitment s)).bind some = _
        rw [recordExecuted, hextra, Option.bind_some, hx']
        rfl
      | false =>
        rw [hauth, if_neg Bool.false_ne_true, law.patchFromEntries_nil] at hextra
        cases hextra
        rw [law.applyStorage_empty] at hx'
        exact hx'
    obtain ⟨t', ht', hkeys'⟩ := ih (not_isNew raises) hrecord
    refine ⟨t', Option.bind_eq_some_iff.mpr ⟨t₁, ht₁, ht'⟩, ?_⟩
    rw [← hkeys']
    congr 1
    rw [List.filter_append, List.filter_filter, List.append_assoc]
    congr 1
    · refine List.filter_congr fun key _ => ?_
      rw [List.all_cons, Bool.and_comm]
    · exact recordedKeys_cons applied rest

include law in
theorem id_eq (h : ServerChain L a summaries a') (hnew : a.isNew = false) : a'.id = a.id := by
  induction h with
  | done a => rfl
  | step applied raises _ ih =>
    obtain ⟨_, _, hdelta⟩ := ServerChain.applied law hnew applied
    rw [ih (not_isNew raises), hdelta.id_kept]

theorem vault_steps (h : ServerChain L a summaries a') (hnew : a.isNew = false) :
    VaultSteps law.toComposes a.vault (summaries.map (·.accountDelta.vault)) a'.vault := by
  induction h with
  | done a => exact .nil a.vault
  | step applied raises _ ih =>
    obtain ⟨_, _, hdelta⟩ := ServerChain.applied law hnew applied
    exact .cons hdelta.vault (ih (not_isNew raises))

theorem code_eq (h : ServerChain L a summaries a') (hnew : a.isNew = false) :
    a'.code = summaries.foldl (fun c s => law.applyCode s.accountDelta.code c) a.code := by
  induction h with
  | done a => rfl
  | step applied raises _ ih =>
    obtain ⟨_, _, hdelta⟩ := ServerChain.applied law hnew applied
    rw [ih (not_isNew raises), hdelta.code]
    rfl

include law in
theorem nonce_eq (h : ServerChain L a summaries a') (hnew : a.isNew = false) :
    a'.nonce = summaries.foldl (fun n s => n + s.accountDelta.nonceDelta) a.nonce := by
  induction h with
  | done a => rfl
  | step applied raises _ ih =>
    obtain ⟨_, _, hdelta⟩ := ServerChain.applied law hnew applied
    have hnonce := hdelta.nonce.resolve_left (Fin.ne_of_gt raises)
    rw [ih (not_isNew raises), hnonce]
    rfl

theorem nonce_lt (h : ServerChain L a summaries a') (hne : summaries ≠ []) :
    a.nonce < a'.nonce := by
  induction h with
  | done a => exact absurd rfl hne
  | @step a a₁ a' s rest _ raises then_ ih =>
    cases rest with
    | nil =>
      cases then_
      exact raises
    | cons t rest => exact Fin.lt_trans raises (ih (List.cons_ne_nil t rest))

end ServerChain

theorem patchAll_eq {law : L.Lawful} (s : P.Storage) (summaries : List P.Summary) :
    patchAll law s summaries = patchDeltas law.toComposes s (summaries.map (·.accountDelta)) := by
  rw [patchAll, patchDeltas, List.foldlM_map]

/-- The merged delta of a sequence can be applied, and leads to the server's
account but for what the server recorded in its storage. -/
theorem ServerChain.merged (law : L.Lawful) {a a' : Account P} {summaries : List P.Summary}
    (h : ServerChain L a summaries a') (hnew : a.isNew = false) (hne : summaries ≠ []) :
    ∃ d b, mergeAccountDeltas L (summaries.map (·.accountDelta)) = some d ∧
      applyAccountDelta L a d = some b ∧ { b with storage := a'.storage } = a' ∧
      patchAll law a.storage summaries = some b.storage ∧
      (recordedKeys L a summaries).foldlM (recordExecuted law) b.storage = some a'.storage := by
  have hstart : ([] : List Word).foldlM (recordExecuted law) a.storage = some a.storage := rfl
  obtain ⟨t, ht, hkeys⟩ := h.storage_over law hnew hstart
  have hvault := h.vault_steps law hnew
  have hid := h.id_eq law hnew
  have hcode := h.code_eq law hnew
  have hnonce := h.nonce_eq law hnew
  have hlt := h.nonce_lt hne
  cases summaries with
  | nil => exact absurd rfl hne
  | cons s rest =>
  have hfirst : a.id = s.accountDelta.id := by
    cases h with
    | step applied raises _ =>
      obtain ⟨_, _, hdelta⟩ := ServerChain.applied law hnew applied
      exact hdelta.id_eq
  have hpatched : patchDeltas law.toComposes a.storage
      (s.accountDelta :: rest.map (·.accountDelta)) = some t := by
    rw [← List.map_cons, ← patchAll_eq]
    exact ht
  have hsteps : VaultSteps law.toComposes a.vault
      ((s.accountDelta :: rest.map (·.accountDelta)).map (·.vault)) a'.vault := by
    rw [← List.map_cons, List.map_map]
    exact hvault
  have hsum : (s.accountDelta :: rest.map (·.accountDelta)).foldl
      (fun n d => n + d.nonceDelta) a.nonce = a'.nonce := by
    rw [← List.map_cons, List.foldl_map, hnonce]
  obtain ⟨d, hmerged, happly⟩ := merged_of_parts law.toComposes hnew hfirst hpatched hsteps hsum hlt
  refine ⟨d, _, hmerged, happly, ?_, ht, hkeys⟩
  have hcodes : (s.accountDelta :: rest.map (·.accountDelta)).foldl
      (fun c d => law.applyCode d.code c) a.code = a'.code := by
    rw [← List.map_cons, List.foldl_map, hcode]
  simp only [hcodes, ← hid]

end Guardian
