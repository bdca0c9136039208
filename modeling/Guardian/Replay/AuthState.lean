import Mathlib
import Guardian.Lib.MaxMap
import Guardian.Metadata
import Guardian.Replay.Floors

/- The replay state file of the filesystem backend (`metadata/filesystem.rs`) and
   what startup makes of it. Before a floor belonged to a signer it belonged to
   an account: an account-scoped entry is expanded to one floor for each listed
   signer and one that every signer of the account is held to. A file that was
   expanded before that last floor existed gets it once, the largest of its
   signers' floors.

   A key is told apart by the accounts file: an account's id, or an id and a signer
   with a separator between. Ids may hold separators themselves, so the
   accounts carry the shape of their ids (`IsAccountId`), by which no id is
   another one's with a signer appended. Entries are walked in any order. What a
   file becomes is the largest floor each of its entries puts (`merged`), and the
   floors the repair adds where none was put (`repairOf`). -/
namespace Guardian.Replay.Filesystem

instance linearOrderInt64 : LinearOrder Int64 where
  le_refl := Int64.le_refl
  le_trans := fun _ _ _ => Int64.le_trans
  lt_iff_le_not_ge := fun a b => by
    rw [Int64.lt_iff_toInt_lt, Int64.le_iff_toInt_le, Int64.le_iff_toInt_le]
    omega
  le_antisymm := fun _ _ => Int64.le_antisymm
  le_total := Int64.le_total
  toDecidableLE := inferInstance

/-! ## Keys -/

/-- `rsplit_once(AUTH_STATE_KEY_SEPARATOR)`. -/
def rsplitOnce (key : String) : Option (String × String) :=
  let reversed := key.toList.reverse
  if ':' ∈ key.toList then
    some (String.ofList ((reversed.dropWhile (· != ':')).drop 1).reverse,
      String.ofList (reversed.takeWhile (· != ':')).reverse)
  else none

theorem rsplitOnce_authStateKey {account signer : String} (h : ':' ∉ signer.toList) :
    rsplitOnce (authStateKey account signer) = some (account, signer) := by
  have hkey : (authStateKey account signer).toList = account.toList ++ ':' :: signer.toList := by
    simp [authStateKey]
  have hall : ∀ c ∈ signer.toList.reverse, (c != ':') = true := by
    intro c hc
    have hne : c ≠ ':' := fun heq => h (heq ▸ List.mem_reverse.mp hc)
    simpa using hne
  rw [rsplitOnce, hkey]
  simp [List.takeWhile_append_of_pos hall, List.dropWhile_append_of_pos hall]

theorem rsplitOnce_eq_some {key account signer : String}
    (h : rsplitOnce key = some (account, signer)) :
    key = authStateKey account signer ∧ ':' ∉ signer.toList := by
  unfold rsplitOnce at h
  dsimp only at h
  split at h
  · next hmem =>
    have hpair := Option.some.inj h
    have haccount := (Prod.mk.inj hpair).1
    have hsigner := (Prod.mk.inj hpair).2
    refine ⟨?_, ?_⟩
    · -- what is dropped starts with the separator
      have hdrop : key.toList.reverse.dropWhile (· != ':') =
          ':' :: (key.toList.reverse.dropWhile (· != ':')).drop 1 := by
        have hne : key.toList.reverse.dropWhile (· != ':') ≠ [] := by
          intro hnil
          have hall := List.dropWhile_eq_nil_iff.mp hnil ':' (List.mem_reverse.mpr hmem)
          exact absurd hall (by decide)
        cases hcase : key.toList.reverse.dropWhile (· != ':') with
        | nil => exact absurd hcase hne
        | cons c rest =>
          have hc := List.head_dropWhile_not (· != ':') hne
          simp only [hcase, List.head_cons] at hc
          simp only [bne_eq_false_iff_eq] at hc
          rw [hc, List.drop_one, List.tail_cons]
      have hsplit : key.toList.reverse.takeWhile (· != ':') ++
          key.toList.reverse.dropWhile (· != ':') = key.toList.reverse :=
        List.takeWhile_append_dropWhile
      rw [hdrop] at hsplit
      have hrev := congrArg List.reverse hsplit
      simp only [List.reverse_append, List.reverse_cons, List.reverse_reverse] at hrev
      apply String.toList_inj.mp
      calc key.toList = _ := hrev.symm
        _ = (authStateKey account signer).toList := by
          rw [authStateKey, ← haccount, ← hsigner]
          simp only [String.toList_append, String.toList_ofList]
          rfl
    · rw [← hsigner, String.toList_ofList, List.mem_reverse]
      intro hin
      exact absurd (List.mem_takeWhile_imp hin) (by decide)
  · cases h

/-- `canonical_signer_shape`. -/
def canonicalSignerShape (signer : String) : Bool :=
  "0x".toList.isPrefixOf signer.toList &&
    ((signer.toList.drop 2).length == 40 || (signer.toList.drop 2).length == 64) &&
    (signer.toList.drop 2).all isAsciiHexdigit

/-- `is_canonical_signer_commitment`. -/
def isCanonicalSignerCommitment (auth : Auth) (commitment : String) : Bool :=
  let hex := if "0x".toList.isPrefixOf commitment.toList then commitment.toList.drop 2 else []
  let expectedHexLength := match auth with
    | .evmEcdsa _ => 40
    | _ => 64
  hex.length == expectedHexLength && hex.all fun c => c.isDigit || ('a' ≤ c && c ≤ 'f')

theorem colon_notMem_of_canonical {auth : Auth} {commitment : String}
    (h : isCanonicalSignerCommitment auth commitment = true) : ':' ∉ commitment.toList := by
  unfold isCanonicalSignerCommitment at h
  dsimp only at h
  rw [Bool.and_eq_true] at h
  obtain ⟨hlen, hall⟩ := h
  split at hall
  · next hprefix =>
    intro hin
    obtain ⟨rest, hrest⟩ := List.isPrefixOf_iff_prefix.mp hprefix
    rw [← hrest] at hin hall
    rcases List.mem_append.mp hin with hin | hin
    · exact absurd hin (by decide)
    · exact absurd (List.all_eq_true.mp hall ':' hin) (by decide)
  · next hprefix =>
    rw [if_neg hprefix] at hlen
    split at hlen
    · exact absurd hlen (by decide)
    · exact absurd hlen (by decide)

/-! ## The accounts file -/

/-- A Miden account's id is hexadecimal; an EVM account's is
`evm:{chain_id}:{account_address}`. -/
def IsAccountId (id : String) : Prop :=
  ':' ∉ id.toList ∨ ∃ chainId address : String, id = "evm:" ++ chainId ++ ":" ++ address ∧
    ':' ∉ chainId.toList ∧ ':' ∉ address.toList

/-- The accounts, by id. -/
structure Accounts where
  auths : AList (fun _ : String => Auth)
  ids : ∀ id ∈ auths, IsAccountId id

/-- No id is another one's with a signer appended: an id has no separator, or
two. -/
theorem Accounts.authStateKey_notMem (accounts : Accounts) {account signer : String}
    (h : account ∈ accounts.auths) (hsigner : ':' ∉ signer.toList) :
    authStateKey account signer ∉ accounts.auths := by
  intro hkey
  have hcount : (authStateKey account signer).toList.count ':' = account.toList.count ':' + 1 := by
    simp [authStateKey, List.count_append, List.count_eq_zero.mpr hsigner]
  have hshape : ∀ {id : String}, IsAccountId id →
      id.toList.count ':' = 0 ∨ id.toList.count ':' = 2 := by
    rintro id (hnone | ⟨chainId, address, rfl, hchain, haddress⟩)
    · exact .inl (List.count_eq_zero.mpr hnone)
    · right
      simp [List.count_append, List.count_eq_zero.mpr hchain, List.count_eq_zero.mpr haddress]
  have hid := hshape (accounts.ids _ h)
  have hkeyId := hshape (accounts.ids _ hkey)
  omega

/-! ## Expansion -/

/-- `auth_state.json`: timestamps by key, in the order they are walked. -/
abbrev AuthState := MaxMap String Int64

/-- `signer_scoped_auth_state_key`. -/
def signerScopedAuthStateKey (accounts : Accounts) (key : String) : Option (String × String) :=
  if key ∈ accounts.auths then none
  else
    (rsplitOnce key).filter fun (accountId, signer) =>
      accountId ∈ accounts.auths || signer == legacyAccountAuthFloor ||
        canonicalSignerShape signer || isReplayFloorKey signer.toList

/-- The listed commitments an account's floor is spread over. -/
def spreadOver (auth : Auth) : List String :=
  auth.cosignerCommitments.filter (isCanonicalSignerCommitment auth)

/-- The loop's variables. -/
structure Expansion where
  expanded : AuthState
  changed : Bool
  signerFloors : AuthState

/-- One entry. -/
def expandEntry (accounts : Accounts) (acc : Expansion) (key : String) (timestamp : Int64) :
    Except String Expansion :=
  match signerScopedAuthStateKey accounts key with
  | some (accountId, signer) =>
    if accountId ∉ accounts.auths then
      .error (s!"Replay state entry '{key}' belongs to account '{accountId}', which has no " ++
        "matching account metadata. Do not delete the replay entry; restore " ++
        "accounts.json and auth_state.json from the same backup")
    else
      -- a delegated signer's floor never seeds the account's
      let signerFloors :=
        if signer ≠ legacyAccountAuthFloor ∧ isReplayFloorKey signer.toList = false then
          acc.signerFloors.merge accountId timestamp
        else acc.signerFloors
      .ok ⟨acc.expanded.merge key timestamp, acc.changed, signerFloors⟩
  | none =>
    match accounts.auths.lookup key with
    | none =>
      .error (s!"Replay state entry '{key}' has no matching account metadata; it may be an " ++
        "account-scoped or signer-scoped key from an incomplete restore; restore " ++
        "accounts.json and auth_state.json from the same backup")
    | some auth =>
      let expanded := acc.expanded.merge (authStateKey key legacyAccountAuthFloor) timestamp
      let expanded := (spreadOver auth).foldl
        (fun expanded commitment => expanded.merge (authStateKey key commitment) timestamp) expanded
      .ok ⟨expanded, true, acc.signerFloors⟩

/-- The floor an account is held to, where it has none. -/
def repairMissingLegacyFloor (acc : AuthState × Bool) (accountId : String) (timestamp : Int64) :
    AuthState × Bool :=
  let legacyKey := authStateKey accountId legacyAccountAuthFloor
  if legacyKey ∈ acc.1 then acc else (acc.1.insert legacyKey timestamp, true)

/-- `expand_account_scoped_auth_state`. -/
def expandAccountScopedAuthState (accounts : Accounts) (state : AuthState)
    (repairMissingLegacyFloors : Bool) : Except String (AuthState × Bool) := do
  let acc ← state.entries.foldlM (fun acc entry => expandEntry accounts acc entry.1 entry.2)
    ⟨∅, false, ∅⟩
  if repairMissingLegacyFloors then
    return acc.signerFloors.entries.foldl
      (fun acc entry => repairMissingLegacyFloor acc entry.1 entry.2) (acc.expanded, acc.changed)
  return (acc.expanded, acc.changed)

/-! ## What an entry puts -/

/-- A key that names a signer of a known account. -/
def SignerKey (accounts : Accounts) (key : String) : Prop :=
  ∃ account signer, key = authStateKey account signer ∧ ':' ∉ signer.toList ∧
    account ∈ accounts.auths

/-- The floors an entry stands for. -/
def putsOf (accounts : Accounts) (key : String) (timestamp : Int64) : List (String × Int64) :=
  match accounts.auths.lookup key with
  | none => [(key, timestamp)]
  | some auth =>
    (authStateKey key legacyAccountAuthFloor, timestamp) ::
      (spreadOver auth).map fun commitment => (authStateKey key commitment, timestamp)

/-- A wallet's floor, for its account. -/
def walletPutsOf (accounts : Accounts) (key : String) (timestamp : Int64) :
    List (String × Int64) :=
  if key ∈ accounts.auths then []
  else
    match rsplitOnce key with
    | none => []
    | some (account, signer) =>
      if signer ≠ legacyAccountAuthFloor ∧ isReplayFloorKey signer.toList = false then
        [(account, timestamp)]
      else []

section
variable {accounts : Accounts} {account signer key : String} {timestamp : Int64}

theorem colon_notMem_legacy : ':' ∉ legacyAccountAuthFloor.toList := by decide

theorem authStateKey_inj {account' signer' : String} (h : ':' ∉ signer.toList)
    (h' : ':' ∉ signer'.toList) (heq : authStateKey account signer = authStateKey account' signer') :
    account = account' ∧ signer = signer' := by
  have hsplit : rsplitOnce (authStateKey account signer) = some (account, signer) :=
    rsplitOnce_authStateKey h
  rw [heq, rsplitOnce_authStateKey h', Option.some.injEq, Prod.mk.injEq] at hsplit
  exact ⟨hsplit.1.symm, hsplit.2.symm⟩

theorem SignerKey.notMem (h : SignerKey accounts key) : key ∉ accounts.auths := by
  obtain ⟨account, signer, rfl, hcolon, hmem⟩ := h
  exact accounts.authStateKey_notMem hmem hcolon

theorem SignerKey.mk' (hmem : account ∈ accounts.auths) (hcolon : ':' ∉ signer.toList) :
    SignerKey accounts (authStateKey account signer) := ⟨account, signer, rfl, hcolon, hmem⟩

theorem SignerKey.of_subset (h : SignerKey accounts key) {accounts' : Accounts}
    (hsub : ∀ id ∈ accounts.auths, id ∈ accounts'.auths) : SignerKey accounts' key := by
  obtain ⟨account, signer, rfl, hcolon, hmem⟩ := h
  exact .mk' (hsub account hmem) hcolon

theorem putsOf_signerKey (h : SignerKey accounts key) (timestamp : Int64) :
    putsOf accounts key timestamp = [(key, timestamp)] := by
  rw [putsOf, AList.lookup_eq_none.mpr h.notMem]

theorem walletPutsOf_authStateKey (hmem : account ∈ accounts.auths) (hcolon : ':' ∉ signer.toList)
    (timestamp : Int64) :
    walletPutsOf accounts (authStateKey account signer) timestamp =
      if signer ≠ legacyAccountAuthFloor ∧ isReplayFloorKey signer.toList = false then
        [(account, timestamp)]
      else [] := by
  rw [walletPutsOf, if_neg (accounts.authStateKey_notMem hmem hcolon),
    rsplitOnce_authStateKey hcolon]

/-- An account's entry puts floors of that account. -/
theorem mem_putsOf_account (h : account ∈ accounts.auths) {put : String × Int64}
    (hput : put ∈ putsOf accounts account timestamp) :
    ∃ signer, put = (authStateKey account signer, timestamp) ∧ ':' ∉ signer.toList := by
  obtain ⟨auth, hauth⟩ := Option.isSome_iff_exists.mp (AList.lookup_isSome.mpr h)
  rw [putsOf, hauth] at hput
  rcases List.mem_cons.mp hput with rfl | hput
  · exact ⟨legacyAccountAuthFloor, rfl, colon_notMem_legacy⟩
  · obtain ⟨commitment, hmem, rfl⟩ := List.mem_map.mp hput
    exact ⟨commitment, rfl, colon_notMem_of_canonical (List.mem_filter.mp hmem).2⟩

theorem legacy_mem_putsOf_account (h : account ∈ accounts.auths) (timestamp : Int64) :
    (authStateKey account legacyAccountAuthFloor, timestamp) ∈
      putsOf accounts account timestamp := by
  obtain ⟨auth, hauth⟩ := Option.isSome_iff_exists.mp (AList.lookup_isSome.mpr h)
  rw [putsOf, hauth]
  exact List.mem_cons_self

/-- An entry of a known account is never refused. -/
theorem expandEntry_known (h : key ∈ accounts.auths ∨ SignerKey accounts key) (acc : Expansion)
    (timestamp : Int64) :
    expandEntry accounts acc key timestamp =
      .ok ⟨acc.expanded.mergeAll (putsOf accounts key timestamp),
        acc.changed || decide (key ∈ accounts.auths),
        acc.signerFloors.mergeAll (walletPutsOf accounts key timestamp)⟩ := by
  rcases h with h | h
  · have hscoped : signerScopedAuthStateKey accounts key = none := if_pos h
    obtain ⟨auth, hauth⟩ := Option.isSome_iff_exists.mp (AList.lookup_isSome.mpr h)
    rw [expandEntry, hscoped, putsOf, walletPutsOf, if_pos h]
    simp only [hauth, h, decide_true, Bool.or_true, MaxMap.mergeAll, List.foldl_cons,
      List.foldl_map, List.foldl_nil]
  · have hputs := putsOf_signerKey h timestamp
    have hnot := h.notMem
    obtain ⟨account, signer, rfl, hcolon, hmem⟩ := h
    have hscoped : signerScopedAuthStateKey accounts (authStateKey account signer) =
        some (account, signer) := by
      rw [signerScopedAuthStateKey, if_neg hnot, rsplitOnce_authStateKey hcolon]
      simp [hmem]
    rw [expandEntry, hscoped, hputs, walletPutsOf_authStateKey hmem hcolon]
    simp only [hmem, not_true_eq_false, if_false, hnot, decide_false, Bool.or_false]
    congr 2
    split
    · rfl
    · rfl

end

/-! ## What a file becomes -/

section
variable {accounts : Accounts} {state : AuthState}

/-- A file whose entries all belong to known accounts; any other aborts
startup. -/
def Known (accounts : Accounts) (state : AuthState) : Prop :=
  ∀ key ∈ state, key ∈ accounts.auths ∨ SignerKey accounts key

/-- All floors the file stands for. -/
def puts (accounts : Accounts) (state : AuthState) : List (String × Int64) :=
  state.entries.flatMap fun entry => putsOf accounts entry.1 entry.2

def walletPuts (accounts : Accounts) (state : AuthState) : List (String × Int64) :=
  state.entries.flatMap fun entry => walletPutsOf accounts entry.1 entry.2

theorem mem_entries {key : String} {timestamp : Int64} :
    (⟨key, timestamp⟩ : Sigma fun _ : String => Int64) ∈ state.entries ↔
      state.lookup key = some timestamp :=
  AList.mem_lookup_iff.symm

theorem mem_puts {put : String × Int64} :
    put ∈ puts accounts state ↔
      ∃ key timestamp, state.lookup key = some timestamp ∧ put ∈ putsOf accounts key timestamp := by
  simp only [puts, List.mem_flatMap]
  constructor
  · rintro ⟨⟨key, timestamp⟩, hmem, hput⟩
    exact ⟨key, timestamp, mem_entries.mp hmem, hput⟩
  · rintro ⟨key, timestamp, hlookup, hput⟩
    exact ⟨⟨key, timestamp⟩, mem_entries.mpr hlookup, hput⟩

theorem mem_walletPuts {put : String × Int64} :
    put ∈ walletPuts accounts state ↔
      ∃ key timestamp, state.lookup key = some timestamp ∧
        put ∈ walletPutsOf accounts key timestamp := by
  simp only [walletPuts, List.mem_flatMap]
  constructor
  · rintro ⟨⟨key, timestamp⟩, hmem, hput⟩
    exact ⟨key, timestamp, mem_entries.mp hmem, hput⟩
  · rintro ⟨key, timestamp, hlookup, hput⟩
    exact ⟨⟨key, timestamp⟩, mem_entries.mpr hlookup, hput⟩

/-- The loop over the entries. -/
theorem foldlM_expandEntry {entries : List (Sigma fun _ : String => Int64)}
    (h : ∀ entry ∈ entries, entry.1 ∈ accounts.auths ∨ SignerKey accounts entry.1)
    (acc : Expansion) :
    entries.foldlM (fun acc entry => expandEntry accounts acc entry.1 entry.2) acc =
      .ok ⟨acc.expanded.mergeAll (entries.flatMap fun entry => putsOf accounts entry.1 entry.2),
        acc.changed || entries.any fun entry => decide (entry.1 ∈ accounts.auths),
        acc.signerFloors.mergeAll
          (entries.flatMap fun entry => walletPutsOf accounts entry.1 entry.2)⟩ := by
  induction entries generalizing acc with
  | nil =>
    rw [List.any_nil, Bool.or_false]
    rfl
  | cons entry entries ih =>
    rw [List.foldlM_cons, expandEntry_known (h entry List.mem_cons_self)]
    simp only [List.flatMap_cons, List.any_cons, MaxMap.mergeAll_append, ← Bool.or_assoc]
    exact ih (fun entry hentry => h entry (List.mem_cons_of_mem _ hentry)) _

/-- An entry that goes through is of a known account. -/
theorem known_of_expandEntry {key : String} {timestamp : Int64} {acc acc' : Expansion}
    (h : expandEntry accounts acc key timestamp = .ok acc') :
    key ∈ accounts.auths ∨ SignerKey accounts key := by
  rw [expandEntry] at h
  split at h
  · next account signer hscoped =>
    split at h
    · cases h
    · next hmem =>
      rw [signerScopedAuthStateKey] at hscoped
      split at hscoped
      · cases hscoped
      · obtain ⟨hsplit, -⟩ := Option.filter_eq_some_iff.mp hscoped
        obtain ⟨rfl, hcolon⟩ := rsplitOnce_eq_some hsplit
        exact .inr ⟨account, signer, rfl, hcolon, not_not.mp hmem⟩
  · split at h
    · cases h
    · next auth hauth =>
      exact .inl (AList.lookup_isSome.mp (by rw [hauth]; rfl))

theorem known_of_foldlM_expandEntry {entries : List (Sigma fun _ : String => Int64)}
    {acc acc' : Expansion}
    (h : entries.foldlM (fun acc entry => expandEntry accounts acc entry.1 entry.2) acc = .ok acc') :
    ∀ entry ∈ entries, entry.1 ∈ accounts.auths ∨ SignerKey accounts entry.1 := by
  induction entries generalizing acc with
  | nil => exact fun entry hentry => absurd hentry List.not_mem_nil
  | cons first rest ih =>
    rw [List.foldlM_cons] at h
    cases hfirst : expandEntry accounts acc first.1 first.2 with
    | error message =>
      rw [hfirst] at h
      cases h
    | ok acc₁ =>
      rw [hfirst] at h
      intro entry hentry
      obtain rfl | hentry := List.mem_cons.mp hentry
      · exact known_of_expandEntry hfirst
      · exact ih h entry hentry

/-- The floor the repair puts under a key that has none. -/
def repairOf (floors : List (Sigma fun _ : String => Int64)) (key : String) : Option Int64 :=
  match rsplitOnce key with
  | none => none
  | some (account, signer) =>
    if signer = legacyAccountAuthFloor then floors.dlookup account else none

theorem lookup_foldl_repair (floors : List (Sigma fun _ : String => Int64))
    (acc : AuthState × Bool) (key : String) :
    (floors.foldl (fun acc entry => repairMissingLegacyFloor acc entry.1 entry.2) acc).1.lookup key =
      (acc.1.lookup key).or (repairOf floors key) := by
  induction floors generalizing acc with
  | nil =>
    have hnone : repairOf [] key = none := by
      unfold repairOf
      split
      · rfl
      · split <;> rfl
    rw [hnone, Option.or_none]
    rfl
  | cons entry floors ih =>
    obtain ⟨account, timestamp⟩ := entry
    rw [List.foldl_cons, ih]
    by_cases hkey : key = authStateKey account legacyAccountAuthFloor
    · -- the key of this entry: it is there, or is put now
      subst hkey
      have hrepair : repairOf (⟨account, timestamp⟩ :: floors)
          (authStateKey account legacyAccountAuthFloor) = some timestamp := by
        rw [repairOf, rsplitOnce_authStateKey colon_notMem_legacy]
        simp
      rw [hrepair]
      unfold repairMissingLegacyFloor
      dsimp only
      split
      · next hin =>
        obtain ⟨held, hheld⟩ := Option.isSome_iff_exists.mp (AList.lookup_isSome.mpr hin)
        rw [hheld]
        rfl
      · next hin =>
        rw [AList.lookup_insert, AList.lookup_eq_none.mpr hin]
        rfl
    · have hrepair : repairOf (⟨account, timestamp⟩ :: floors) key = repairOf floors key := by
        unfold repairOf
        split
        · rfl
        · next split_account signer hsplit =>
          split
          · next hlegacy =>
            rw [List.dlookup_cons_ne]
            intro heq
            obtain ⟨hshape, _⟩ := rsplitOnce_eq_some hsplit
            exact hkey (by rw [hshape, hlegacy, heq])
          · rfl
      rw [hrepair]
      unfold repairMissingLegacyFloor
      dsimp only
      split
      · rfl
      · rw [AList.lookup_insert_ne hkey]

/-- Where no floor is missing, nothing is put. -/
theorem foldl_repair_of_mem {floors : List (Sigma fun _ : String => Int64)}
    {acc : AuthState × Bool}
    (h : ∀ entry ∈ floors, authStateKey entry.1 legacyAccountAuthFloor ∈ acc.1) :
    floors.foldl (fun acc entry => repairMissingLegacyFloor acc entry.1 entry.2) acc = acc := by
  induction floors with
  | nil => rfl
  | cons entry floors ih =>
    have hstep : repairMissingLegacyFloor acc entry.1 entry.2 = acc :=
      if_pos (h entry List.mem_cons_self)
    rw [List.foldl_cons, hstep]
    exact ih fun entry hentry => h entry (List.mem_cons_of_mem _ hentry)

/-- The floors of the file, each the largest put under its key. -/
def merged (accounts : Accounts) (state : AuthState) : AuthState :=
  (∅ : AuthState).mergeAll (puts accounts state)

/-- The largest wallet floor of each account. -/
def walletFloors (accounts : Accounts) (state : AuthState) : AuthState :=
  (∅ : AuthState).mergeAll (walletPuts accounts state)

/-- What the expansion returns, before the repair. -/
theorem expand_known (h : Known accounts state) (repair : Bool) :
    expandAccountScopedAuthState accounts state repair =
      .ok (if repair then
          (walletFloors accounts state).entries.foldl
            (fun acc entry => repairMissingLegacyFloor acc entry.1 entry.2)
            (merged accounts state, state.entries.any fun entry => decide (entry.1 ∈ accounts.auths))
        else (merged accounts state,
          state.entries.any fun entry => decide (entry.1 ∈ accounts.auths))) := by
  have hentries : ∀ entry ∈ state.entries,
      entry.1 ∈ accounts.auths ∨ SignerKey accounts entry.1 :=
    fun entry hentry => h entry.1 (List.mem_keys_of_mem hentry)
  rw [expandAccountScopedAuthState, foldlM_expandEntry hentries]
  cases repair with
  | true => rfl
  | false => rfl

/-- A file of unknown accounts aborts startup. -/
theorem known_of_expand {repair : Bool} {result : AuthState × Bool}
    (h : expandAccountScopedAuthState accounts state repair = .ok result) :
    Known accounts state := by
  rw [expandAccountScopedAuthState] at h
  cases hloop : state.entries.foldlM (fun acc entry => expandEntry accounts acc entry.1 entry.2)
      (⟨∅, false, ∅⟩ : Expansion) with
  | error message =>
    rw [hloop] at h
    cases h
  | ok acc =>
    intro key hkey
    obtain ⟨entry, hentry, rfl⟩ := List.mem_map.mp (AList.mem_keys.mp hkey)
    exact known_of_foldlM_expandEntry hloop entry hentry

theorem expand_known_lookup (h : Known accounts state) (repair : Bool) :
    ∃ expanded changed, expandAccountScopedAuthState accounts state repair =
        .ok (expanded, changed) ∧
      ∀ key, expanded.lookup key = ((merged accounts state).lookup key).or
        (if repair then repairOf (walletFloors accounts state).entries key else none) := by
  rw [expand_known h]
  cases repair with
  | true => exact ⟨_, _, rfl, fun key => lookup_foldl_repair _ _ key⟩
  | false => exact ⟨_, _, rfl, fun key => (Option.or_none).symm⟩

/-- A floor in the merged state was put. -/
theorem mem_puts_of_merged {key : String} {timestamp : Int64}
    (h : (merged accounts state).lookup key = some timestamp) :
    (key, timestamp) ∈ puts accounts state := by
  rcases MaxMap.mem_of_lookup_mergeAll h with h | h
  · rw [AList.lookup_empty] at h
    cases h
  · exact h

theorem mem_walletPuts_of_walletFloors {account : String} {timestamp : Int64}
    (h : (walletFloors accounts state).lookup account = some timestamp) :
    (account, timestamp) ∈ walletPuts accounts state := by
  rcases MaxMap.mem_of_lookup_mergeAll h with h | h
  · rw [AList.lookup_empty] at h
    cases h
  · exact h

/-- A floor of an account without an entry of its own is the file's. -/
theorem merged_lookup_of_expanded {account signer : String} (hmem : account ∈ accounts.auths)
    (hcolon : ':' ∉ signer.toList) (hnone : state.lookup account = none) :
    (merged accounts state).lookup (authStateKey account signer) =
      state.lookup (authStateKey account signer) := by
  apply MaxMap.lookup_mergeAll_eq
  intro timestamp
  rw [mem_puts]
  constructor
  · rintro ⟨key, timestamp', hlookup, hput⟩
    by_cases hkey : key ∈ accounts.auths
    · -- put by an account's entry: it would be this account's
      obtain ⟨signer', heq, hcolon'⟩ := mem_putsOf_account hkey hput
      obtain ⟨rfl, _⟩ := authStateKey_inj hcolon hcolon' (Prod.mk.inj heq).1
      rw [hnone] at hlookup
      cases hlookup
    · rw [putsOf, AList.lookup_eq_none.mpr hkey, List.mem_singleton] at hput
      cases hput
      exact hlookup
  · intro hlookup
    refine ⟨_, timestamp, hlookup, ?_⟩
    rw [putsOf_signerKey (.mk' hmem hcolon)]
    exact List.mem_singleton.mpr rfl

/-- A wallet, not a delegated signer or the account's own floor. -/
def IsWallet (signer : String) : Prop :=
  ':' ∉ signer.toList ∧ signer ≠ legacyAccountAuthFloor ∧ isReplayFloorKey signer.toList = false

theorem mem_walletPuts_iff (hknown : Known accounts state) {account : String} {timestamp : Int64} :
    (account, timestamp) ∈ walletPuts accounts state ↔
      account ∈ accounts.auths ∧ ∃ signer, IsWallet signer ∧
        state.lookup (authStateKey account signer) = some timestamp := by
  rw [mem_walletPuts]
  constructor
  · rintro ⟨key, timestamp', hlookup, hput⟩
    have hin : key ∈ state := AList.lookup_isSome.mp (by rw [hlookup]; rfl)
    rcases hknown key hin with hkey | ⟨account', signer, rfl, hcolon, hmem⟩
    · rw [walletPutsOf, if_pos hkey] at hput
      cases hput
    · rw [walletPutsOf_authStateKey hmem hcolon] at hput
      split at hput
      · next hwallet =>
        cases List.mem_singleton.mp hput
        exact ⟨hmem, signer, ⟨hcolon, hwallet⟩, hlookup⟩
      · cases hput
  · rintro ⟨hmem, signer, ⟨hcolon, hwallet⟩, hlookup⟩
    refine ⟨_, timestamp, hlookup, ?_⟩
    rw [walletPutsOf_authStateKey hmem hcolon, if_pos hwallet]
    exact List.mem_singleton.mpr rfl

end

end Guardian.Replay.Filesystem
