import Mathlib
import Guardian.Replay.AuthState

/- Startups of the filesystem backend, one after another. The expansion of a file
   holds no signer to less than before (`notBelow_effectiveFloor`); its entries
   are all signers' (`Scoped`), and a file of signers' entries is loaded as it is.
   Between two startups the server raises and purges floors and writes accounts,
   none of which puts an account's entry back. -/
namespace Guardian.Replay.Filesystem

/-! ## Floors in force -/

/-- The floors, as the two statements on them see them. -/
def AuthState.floors (state : AuthState) : Floors String := fun key => state.lookup key

/-- What `update_last_auth_timestamp_cas` compares a timestamp with. -/
def effectiveFloor (floors : Floors String) (account signer : String) : Option Int64 :=
  maxFloor (floors (authStateKey account signer))
    (floors (authStateKey account legacyAccountAuthFloor))

/-- What a signer is held to by a file from before the expansion. -/
def floorInForce (floors : Floors String) (account signer : String) : Option Int64 :=
  maxFloor (floors account) (effectiveFloor floors account signer)

/-- At least as high. -/
def NotBelow (before after : Option Int64) : Prop :=
  ∀ old, before = some old → ∃ new, after = some new ∧ old ≤ new

theorem NotBelow.maxFloor_left {before a : Option Int64} (h : NotBelow before a)
    (b : Option Int64) : NotBelow before (maxFloor a b) := by
  intro old hold
  obtain ⟨new, rfl, hle⟩ := h old hold
  cases b with
  | none => exact ⟨new, rfl, hle⟩
  | some other =>
    refine ⟨_, rfl, ?_⟩
    split
    · next hlt => exact le_trans hle hlt
    · exact hle

theorem NotBelow.maxFloor_right {before b : Option Int64} (h : NotBelow before b)
    (a : Option Int64) : NotBelow before (maxFloor a b) := by
  intro old hold
  obtain ⟨new, rfl, hle⟩ := h old hold
  cases a with
  | none => exact ⟨new, rfl, hle⟩
  | some other =>
    refine ⟨_, rfl, ?_⟩
    split
    · exact hle
    · next hlt => exact le_trans hle (le_of_lt (lt_of_not_ge hlt))

theorem NotBelow.of_maxFloor {a b after : Option Int64} (ha : NotBelow a after)
    (hb : NotBelow b after) : NotBelow (maxFloor a b) after := by
  cases a with
  | none => exact hb
  | some a =>
    cases b with
    | none => exact ha
    | some b =>
      intro old hold
      cases hold
      split
      · exact hb b rfl
      · exact ha a rfl

section
variable {accounts : Accounts} {state : AuthState}

/-- Every floor put into the merged state is in force there. -/
theorem notBelow_merged {key held : String}
    (h : ∀ timestamp, state.lookup held = some timestamp →
      (key, timestamp) ∈ putsOf accounts held timestamp) (rest : Option Int64) :
    NotBelow (state.lookup held) (((merged accounts state).lookup key).or rest) := by
  intro old hold
  obtain ⟨new, hnew, hle⟩ : ∃ new, (merged accounts state).lookup key = some new ∧ old ≤ new :=
    MaxMap.le_lookup_mergeAll (mem_puts.mpr ⟨held, old, hold, h old hold⟩)
  exact ⟨new, by rw [hnew]; rfl, hle⟩

/-- No signer's floor drops. -/
theorem notBelow_effectiveFloor {expanded : AuthState} {rest : String → Option Int64}
    (hexpanded : ∀ key, expanded.lookup key = ((merged accounts state).lookup key).or (rest key))
    {account signer : String} (hmem : account ∈ accounts.auths) (hcolon : ':' ∉ signer.toList) :
    NotBelow (floorInForce state.floors account signer)
      (effectiveFloor expanded.floors account signer) := by
  have hself : ∀ {signer : String}, ':' ∉ signer.toList →
      NotBelow (state.lookup (authStateKey account signer))
        (expanded.lookup (authStateKey account signer)) := by
    intro signer hcolon
    rw [hexpanded]
    refine notBelow_merged (fun timestamp _ => ?_) _
    rw [putsOf_signerKey (.mk' hmem hcolon)]
    exact List.mem_singleton.mpr rfl
  have haccount : NotBelow (state.lookup account)
      (expanded.lookup (authStateKey account legacyAccountAuthFloor)) := by
    rw [hexpanded]
    exact notBelow_merged (fun timestamp _ => legacy_mem_putsOf_account hmem timestamp) _
  exact .of_maxFloor (haccount.maxFloor_right _)
    (.of_maxFloor ((hself hcolon).maxFloor_left _)
      ((hself colon_notMem_legacy).maxFloor_right _))

end

/-! ## Loading again -/

/-- Every entry is a signer's. -/
def Scoped (accounts : Accounts) (state : AuthState) : Prop :=
  ∀ key ∈ state, SignerKey accounts key

/-- An account with a wallet floor has the floor all its signers are held to. -/
def Repaired (state : AuthState) : Prop :=
  ∀ account signer, IsWallet signer → authStateKey account signer ∈ state →
    authStateKey account legacyAccountAuthFloor ∈ state

section
variable {accounts : Accounts} {state : AuthState}

theorem expand_scoped (hscoped : Scoped accounts state) {repair : Bool}
    (hrepair : repair = true → Repaired state) :
    ∃ again, expandAccountScopedAuthState accounts state repair = .ok (again, false) ∧
      ∀ key, again.lookup key = state.lookup key := by
  have hknown : Known accounts state := fun key hkey => .inr (hscoped key hkey)
  have hany : (state.entries.any fun entry => decide (entry.1 ∈ accounts.auths)) = false := by
    rw [List.any_eq_false]
    intro entry hentry
    simpa using (hscoped entry.1 (List.mem_keys_of_mem hentry)).notMem
  -- every entry puts itself
  have hmerged : ∀ key, (merged accounts state).lookup key = state.lookup key := by
    intro key
    apply MaxMap.lookup_mergeAll_eq
    intro timestamp
    rw [mem_puts]
    constructor
    · rintro ⟨key', timestamp', hlookup, hput⟩
      have hin : key' ∈ state := AList.lookup_isSome.mp (by rw [hlookup]; rfl)
      rw [putsOf_signerKey (hscoped key' hin), List.mem_singleton] at hput
      cases hput
      exact hlookup
    · intro hlookup
      have hin : key ∈ state := AList.lookup_isSome.mp (by rw [hlookup]; rfl)
      refine ⟨key, timestamp, hlookup, ?_⟩
      rw [putsOf_signerKey (hscoped key hin)]
      exact List.mem_singleton.mpr rfl
  refine ⟨merged accounts state, ?_, hmerged⟩
  rw [expand_known hknown, hany]
  cases repair with
  | false => rfl
  | true =>
    have hmissing : ∀ entry ∈ (walletFloors accounts state).entries,
        authStateKey entry.1 legacyAccountAuthFloor ∈ merged accounts state := by
      rintro ⟨account, timestamp⟩ hentry
      obtain ⟨_, signer, hwallet, hlookup⟩ := (mem_walletPuts_iff hknown).mp
        (mem_walletPuts_of_walletFloors (mem_entries.mp hentry))
      have hin := hrepair rfl account signer hwallet
        (AList.lookup_isSome.mp (by rw [hlookup]; rfl))
      rw [← AList.lookup_isSome, hmerged, AList.lookup_isSome]
      exact hin
    exact congrArg Except.ok (foldl_repair_of_mem hmissing)

variable {expanded : AuthState} {repair : Bool}

/-- The lookup of an expanded file. -/
def IsExpansion (accounts : Accounts) (state expanded : AuthState) (repair : Bool) : Prop :=
  ∀ key, expanded.lookup key = ((merged accounts state).lookup key).or
    (if repair then repairOf (walletFloors accounts state).entries key else none)

/-- Where the repair put a floor. -/
theorem repairOf_eq_some (hknown : Known accounts state) {key : String} {timestamp : Int64}
    (h : repairOf (walletFloors accounts state).entries key = some timestamp) :
    ∃ account, key = authStateKey account legacyAccountAuthFloor ∧ account ∈ accounts.auths ∧
      (walletFloors accounts state).lookup account = some timestamp := by
  unfold repairOf at h
  split at h
  · cases h
  · next account signer hsplit =>
    split at h
    · next hlegacy =>
      have hfloor : (walletFloors accounts state).lookup account = some timestamp := h
      obtain ⟨hmem, _⟩ := (mem_walletPuts_iff hknown).mp (mem_walletPuts_of_walletFloors hfloor)
      exact ⟨account, by rw [(rsplitOnce_eq_some hsplit).1, hlegacy], hmem, hfloor⟩
    · cases h

theorem IsExpansion.scoped (h : IsExpansion accounts state expanded repair)
    (hknown : Known accounts state) : Scoped accounts expanded := by
  intro key hkey
  obtain ⟨timestamp, hlookup⟩ := Option.isSome_iff_exists.mp (AList.lookup_isSome.mpr hkey)
  rw [h key, Option.or_eq_some_iff] at hlookup
  rcases hlookup with hmerged | ⟨_, hrepair⟩
  · obtain ⟨key', timestamp', hlookup', hput⟩ := mem_puts.mp (mem_puts_of_merged hmerged)
    have hin : key' ∈ state := AList.lookup_isSome.mp (by rw [hlookup']; rfl)
    rcases hknown key' hin with hkey' | hkey'
    · obtain ⟨signer, heq, hcolon⟩ := mem_putsOf_account hkey' hput
      cases heq
      exact .mk' hkey' hcolon
    · rw [putsOf_signerKey hkey', List.mem_singleton] at hput
      cases hput
      exact hkey'
  · split at hrepair
    · obtain ⟨account, rfl, hmem, _⟩ := repairOf_eq_some hknown hrepair
      exact .mk' hmem colon_notMem_legacy
    · cases hrepair

theorem IsExpansion.repaired (h : IsExpansion accounts state expanded true)
    (hknown : Known accounts state) : Repaired expanded := by
  intro account signer hwallet hkey
  obtain ⟨timestamp, hlookup⟩ := Option.isSome_iff_exists.mp (AList.lookup_isSome.mpr hkey)
  rw [h, Option.or_eq_some_iff] at hlookup
  have hlegacy : ∀ held : Int64, ((merged accounts state).lookup
        (authStateKey account legacyAccountAuthFloor)).or
        (repairOf (walletFloors accounts state).entries
          (authStateKey account legacyAccountAuthFloor)) = some held →
      authStateKey account legacyAccountAuthFloor ∈ expanded := by
    intro held hheld
    have hlegacy := h (authStateKey account legacyAccountAuthFloor)
    rw [if_pos rfl, hheld] at hlegacy
    exact AList.lookup_isSome.mp (by rw [hlegacy]; rfl)
  rcases hlookup with hmerged | ⟨_, hrepair⟩
  · obtain ⟨key', timestamp', hlookup', hput⟩ := mem_puts.mp (mem_puts_of_merged hmerged)
    by_cases hkey' : key' ∈ accounts.auths
    · -- put by the account's entry, and so was the floor of all signers
      obtain ⟨signer', heq, hcolon⟩ := mem_putsOf_account hkey' hput
      obtain ⟨rfl, _⟩ := authStateKey_inj hwallet.1 hcolon (Prod.mk.inj heq).1
      obtain ⟨held, hheld, _⟩ : ∃ held, (merged accounts state).lookup
          (authStateKey account legacyAccountAuthFloor) = some held ∧ timestamp' ≤ held :=
        MaxMap.le_lookup_mergeAll (mem_puts.mpr
          ⟨account, timestamp', hlookup', legacy_mem_putsOf_account hkey' timestamp'⟩)
      exact hlegacy held (by rw [hheld]; rfl)
    · -- an entry of the file: the account has a wallet floor
      rw [putsOf, AList.lookup_eq_none.mpr hkey', List.mem_singleton] at hput
      cases hput
      have hin : authStateKey account signer ∈ state :=
        AList.lookup_isSome.mp (by rw [hlookup']; rfl)
      have hmem : account ∈ accounts.auths := by
        rcases hknown _ hin with hknown | ⟨account', signer', heq, hcolon, hmem⟩
        · exact absurd hknown hkey'
        · obtain ⟨rfl, _⟩ := authStateKey_inj hwallet.1 hcolon heq
          exact hmem
      obtain ⟨floor, hfloor, _⟩ : ∃ floor, (walletFloors accounts state).lookup account =
          some floor ∧ timestamp ≤ floor :=
        MaxMap.le_lookup_mergeAll
          ((mem_walletPuts_iff hknown).mpr ⟨hmem, signer, hwallet, hlookup'⟩)
      have hrepair : repairOf (walletFloors accounts state).entries
          (authStateKey account legacyAccountAuthFloor) = some floor := by
        rw [repairOf, rsplitOnce_authStateKey colon_notMem_legacy]
        exact hfloor
      rw [hrepair] at hlegacy
      cases hheld : (merged accounts state).lookup
          (authStateKey account legacyAccountAuthFloor) with
      | none => exact hlegacy floor (by rw [hheld]; rfl)
      | some held => exact hlegacy held (by rw [hheld]; rfl)
  · rw [if_pos rfl] at hrepair
    obtain ⟨account', heq, _, _⟩ := repairOf_eq_some hknown hrepair
    exact absurd (authStateKey_inj hwallet.1 colon_notMem_legacy heq).2 hwallet.2.1

/-- The file is expanded iff its entries are known accounts'; if not, startup aborts. -/
theorem expand_ok_iff (repair : Bool) :
    (∃ result, expandAccountScopedAuthState accounts state repair = .ok result) ↔
      Known accounts state := by
  constructor
  · rintro ⟨result, hok⟩
    exact known_of_expand hok
  · intro hknown
    obtain ⟨expanded, changed, hok, -⟩ := expand_known_lookup hknown repair
    exact ⟨_, hok⟩

/-- What comes out of the expansion. -/
theorem isExpansion_of_expand {changed : Bool}
    (hok : expandAccountScopedAuthState accounts state repair = .ok (expanded, changed)) :
    IsExpansion accounts state expanded repair := by
  obtain ⟨expanded', changed', hok', hlookup⟩ := expand_known_lookup (known_of_expand hok) repair
  obtain ⟨rfl, -⟩ := Prod.mk.inj (Except.ok.inj (hok'.symm.trans hok))
  exact hlookup

/-- An account without an entry of its own keeps its floors. -/
theorem IsExpansion.kept (h : IsExpansion accounts state expanded repair) {account signer : String}
    (hmem : account ∈ accounts.auths) (hnone : state.lookup account = none)
    (hcolon : ':' ∉ signer.toList) (hcase : signer ≠ legacyAccountAuthFloor ∨ repair = false ∨
      authStateKey account signer ∈ state) :
    expanded.lookup (authStateKey account signer) =
      state.lookup (authStateKey account signer) := by
  rw [h, merged_lookup_of_expanded hmem hcolon hnone]
  rcases hcase with hsigner | hrepair | hheld
  · have hrepair : repairOf (walletFloors accounts state).entries
        (authStateKey account signer) = none := by
      rw [repairOf, rsplitOnce_authStateKey hcolon]
      exact if_neg hsigner
    rw [hrepair, ite_self, Option.or_none]
  · rw [hrepair, if_neg Bool.false_ne_true, Option.or_none]
  · obtain ⟨held, hheld⟩ := Option.isSome_iff_exists.mp (AList.lookup_isSome.mpr hheld)
    rw [hheld]
    rfl

/-- The floor that the repair adds to an account is the largest of its wallets'. -/
theorem IsExpansion.added (h : IsExpansion accounts state expanded repair)
    (hknown : Known accounts state) {account : String} (hmem : account ∈ accounts.auths)
    (hnone : state.lookup account = none) {floor : Int64}
    (hmissing : authStateKey account legacyAccountAuthFloor ∉ state)
    (hfloor : expanded.lookup (authStateKey account legacyAccountAuthFloor) = some floor) :
    (∃ signer, IsWallet signer ∧ state.lookup (authStateKey account signer) = some floor) ∧
      ∀ signer timestamp, IsWallet signer →
        state.lookup (authStateKey account signer) = some timestamp → timestamp ≤ floor := by
  rw [h, merged_lookup_of_expanded hmem colon_notMem_legacy hnone,
    AList.lookup_eq_none.mpr hmissing, Option.none_or] at hfloor
  split at hfloor
  · obtain ⟨account', heq, _, hwalletFloor⟩ := repairOf_eq_some hknown hfloor
    obtain ⟨rfl, _⟩ := authStateKey_inj colon_notMem_legacy colon_notMem_legacy heq
    obtain ⟨_, signer, hwallet, hheld⟩ := (mem_walletPuts_iff hknown).mp
      (mem_walletPuts_of_walletFloors hwalletFloor)
    refine ⟨⟨signer, hwallet, hheld⟩, fun signer timestamp hwallet hheld => ?_⟩
    obtain ⟨floor', hfloor', hle⟩ : ∃ floor', (walletFloors accounts state).lookup account =
        some floor' ∧ timestamp ≤ floor' :=
      MaxMap.le_lookup_mergeAll
        ((mem_walletPuts_iff hknown).mpr ⟨hmem, signer, hwallet, hheld⟩)
    cases hwalletFloor.symm.trans hfloor'
    exact hle
  · cases hfloor

/-- A later startup that repairs no more than this one did finds nothing to do. -/
theorem IsExpansion.again (h : IsExpansion accounts state expanded repair)
    (hknown : Known accounts state) {accounts' : Accounts} {state' : AuthState} {repair' : Bool}
    (hsub : ∀ id ∈ accounts.auths, id ∈ accounts'.auths)
    (hsame : ∀ key, state'.lookup key = expanded.lookup key)
    (himplies : repair' = true → repair = true) :
    ∃ again, expandAccountScopedAuthState accounts' state' repair' = .ok (again, false) ∧
      ∀ key, again.lookup key = expanded.lookup key := by
  have hin : ∀ {key}, key ∈ state' ↔ key ∈ expanded := by
    intro key
    rw [← AList.lookup_isSome, ← AList.lookup_isSome, hsame]
  have hscoped : Scoped accounts' state' :=
    fun key hkey => (h.scoped hknown key (hin.mp hkey)).of_subset hsub
  have hrepaired : repair' = true → Repaired state' := by
    intro hrepair'
    have hrepaired := IsExpansion.repaired (himplies hrepair' ▸ h) hknown
    exact fun account signer hwallet hkey =>
      hin.mpr (hrepaired account signer hwallet (hin.mp hkey))
  obtain ⟨again, hagain, heq⟩ := expand_scoped hscoped hrepaired
  exact ⟨again, hagain, fun key => (heq key).trans (hsame key)⟩

end

/-- What a running server does to the two files: the two statements on the
floors, and writes of accounts. No account is ever deleted. -/
inductive ServerStep : Accounts × AuthState → Accounts × AuthState → Prop
  | updateLastAuthTimestampCas {accounts : Accounts} {state state' : AuthState}
      {account signer : String} {newTimestamp : Int64} (known : account ∈ accounts.auths)
      (colon : ':' ∉ signer.toList)
      (cas : state'.floors =
        (updateLastAuthTimestampCas account signer newTimestamp state.floors).2) :
      ServerStep (accounts, state) (accounts, state')
  | purgeSessionFloors {accounts : Accounts} {state state' : AuthState} {beforeMs : Int64}
      (purge : state'.floors = purgeSessionFloors beforeMs state.floors) :
      ServerStep (accounts, state) (accounts, state')
  | writeAccounts {accounts accounts' : Accounts} {state : AuthState}
      (kept : ∀ id ∈ accounts.auths, id ∈ accounts'.auths) :
      ServerStep (accounts, state) (accounts', state)

theorem ServerStep.scoped {s s' : Accounts × AuthState} (h : ServerStep s s')
    (hscoped : Scoped s.1 s.2) : Scoped s'.1 s'.2 := by
  cases h with
  | @updateLastAuthTimestampCas accounts state state' account signer newTimestamp known colon cas =>
    intro key hkey
    by_cases hself : key = authStateKey account signer
    · rw [hself]
      exact .mk' known colon
    · have hfloor : state'.lookup key = state.lookup key := by
        have hcas := congrFun cas key
        rcases cas_cases account signer newTimestamp state.floors with hno | ⟨_, hyes, _, _, hrest⟩
        · rw [hno] at hcas
          exact hcas
        · rw [hyes] at hcas
          exact hcas.trans (hrest key hself)
      exact hscoped key (AList.lookup_isSome.mp (by rw [← hfloor]; exact AList.lookup_isSome.mpr hkey))
  | @purgeSessionFloors accounts state state' beforeMs purge =>
    intro key hkey
    apply hscoped key
    obtain ⟨timestamp, hlookup⟩ := Option.isSome_iff_exists.mp (AList.lookup_isSome.mpr hkey)
    have hpurge : Filesystem.purgeSessionFloors beforeMs state.floors key = some timestamp :=
      (congrFun purge key).symm.trans hlookup
    unfold Filesystem.purgeSessionFloors at hpurge
    split at hpurge
    · cases hpurge
    · exact AList.lookup_isSome.mp (by rw [show state.lookup key = some timestamp from hpurge]; rfl)
  | writeAccounts kept => exact fun key hkey => (hscoped key hkey).of_subset kept

/-- No run of the server puts an account's entry back. -/
theorem scoped_of_run {s s' : Accounts × AuthState} (hrun : Relation.ReflTransGen ServerStep s s')
    (hscoped : Scoped s.1 s.2) : Scoped s'.1 s'.2 := by
  induction hrun with
  | refl => exact hscoped
  | tail _ hstep ih => exact hstep.scoped ih

/-- The expansion of any file. It succeeds on the files of known accounts and aborts
startup on all others. No signer is held to less than before. An account without
an entry of its own keeps its floors; only the repair adds to it the floor of all
its signers, where that is missing, the largest of its wallets' floors. The
expanded file, loaded again in any order and with any signer sets, stays as it
is; so does what a running server makes of it. -/
theorem expansion_keeps_floors (accounts : Accounts) (state : AuthState) (repair : Bool) :
    ((∃ result, expandAccountScopedAuthState accounts state repair = .ok result) ↔
      Known accounts state) ∧
    ∀ expanded changed, expandAccountScopedAuthState accounts state repair =
        .ok (expanded, changed) →
      (∀ account signer, account ∈ accounts.auths → ':' ∉ signer.toList →
        NotBelow (floorInForce state.floors account signer)
          (effectiveFloor expanded.floors account signer)) ∧
      (∀ account, account ∈ accounts.auths → state.lookup account = none →
        (∀ signer, ':' ∉ signer.toList → signer ≠ legacyAccountAuthFloor ∨ repair = false ∨
            authStateKey account signer ∈ state →
          expanded.lookup (authStateKey account signer) =
            state.lookup (authStateKey account signer)) ∧
        ∀ floor, authStateKey account legacyAccountAuthFloor ∉ state →
          expanded.lookup (authStateKey account legacyAccountAuthFloor) = some floor →
          (∃ signer, IsWallet signer ∧
            state.lookup (authStateKey account signer) = some floor) ∧
          ∀ signer timestamp, IsWallet signer →
            state.lookup (authStateKey account signer) = some timestamp → timestamp ≤ floor) ∧
      (∀ accounts' state' repair', (∀ id ∈ accounts.auths, id ∈ accounts'.auths) →
        (∀ key, state'.lookup key = expanded.lookup key) → (repair' = true → repair = true) →
        ∃ again, expandAccountScopedAuthState accounts' state' repair' = .ok (again, false) ∧
          ∀ key, again.lookup key = expanded.lookup key) ∧
      ∀ accounts' state', Relation.ReflTransGen ServerStep (accounts, expanded)
          (accounts', state') →
        ∃ again, expandAccountScopedAuthState accounts' state' false = .ok (again, false) ∧
          ∀ key, again.lookup key = state'.lookup key := by
  refine ⟨expand_ok_iff repair, fun expanded changed hok => ?_⟩
  have hknown : Known accounts state := known_of_expand hok
  have hexpansion : IsExpansion accounts state expanded repair := isExpansion_of_expand hok
  refine ⟨?_, ?_, ?_, ?_⟩
  · intro account signer hmem hcolon
    exact notBelow_effectiveFloor hexpansion hmem hcolon
  · intro account hmem hnone
    refine ⟨?_, ?_⟩
    · intro signer hcolon hcase
      exact hexpansion.kept hmem hnone hcolon hcase
    · intro floor hmissing hfloor
      exact hexpansion.added hknown hmem hnone hmissing hfloor
  · intro accounts' state' repair' hsub hsame himplies
    exact hexpansion.again hknown hsub hsame himplies
  · intro accounts' state' hrun
    have hscoped : Scoped accounts' state' := scoped_of_run hrun (hexpansion.scoped hknown)
    exact expand_scoped hscoped fun h => absurd h Bool.false_ne_true

namespace Demo

/-- One account, with no usable signer listed. -/
def accounts : Accounts where
  auths := AList.singleton "0xa" (.midenFalconRpo [])
  ids := by
    intro id hid
    have hid : id = "0xa" := by
      simpa [AList.mem_keys] using hid
    rw [hid]
    exact .inl (by decide)

theorem mem_accounts : "0xa" ∈ accounts.auths := by
  simp [accounts, AList.mem_keys]

/-- A floor from before floors were a signer's. -/
def accountScoped : AuthState := AList.singleton "0xa" 4242

/-- A floor of one signer, and none of the account. -/
def signerScoped : AuthState := AList.singleton "0xa:0xb" 7

theorem known_accountScoped : Known accounts accountScoped := by
  intro key hkey
  have hkey : key = "0xa" := by
    simpa [accountScoped, AList.mem_keys] using hkey
  rw [hkey]
  exact .inl mem_accounts

end Demo

/-- A signer the account does not list is held to the floor the account had. -/
theorem expansion_keeps_floors_unlisted :
    ∃ expanded changed, expandAccountScopedAuthState Demo.accounts Demo.accountScoped true =
        .ok (expanded, changed) ∧
      NotBelow (floorInForce Demo.accountScoped.floors "0xa" "0xd")
        (effectiveFloor expanded.floors "0xa" "0xd") ∧
      floorInForce Demo.accountScoped.floors "0xa" "0xd" = some 4242 := by
  obtain ⟨hiff, hall⟩ := expansion_keeps_floors Demo.accounts Demo.accountScoped true
  obtain ⟨⟨expanded, changed⟩, hok⟩ := hiff.mpr Demo.known_accountScoped
  obtain ⟨hfloors, _⟩ := hall expanded changed hok
  exact ⟨expanded, changed, hok, hfloors "0xa" "0xd" Demo.mem_accounts (by decide), by decide⟩

/-- The repair adds a floor to an account whose entries are all signers'. -/
theorem expanded_account_gains_floor :
    ¬∀ (accounts : Accounts) (state : AuthState) (repair : Bool) (expanded : AuthState)
        (changed : Bool),
      expandAccountScopedAuthState accounts state repair = .ok (expanded, changed) →
      ∀ account signer, account ∈ accounts.auths → state.lookup account = none →
        expanded.lookup (authStateKey account signer) =
          state.lookup (authStateKey account signer) := by
  intro hall
  have hfloor : (expandAccountScopedAuthState Demo.accounts Demo.signerScoped true).toOption.map
      (fun result => result.1.lookup (authStateKey "0xa" legacyAccountAuthFloor)) =
        some (some 7) := by decide +kernel
  cases hresult : expandAccountScopedAuthState Demo.accounts Demo.signerScoped true with
  | error message =>
    rw [hresult] at hfloor
    cases hfloor
  | ok result =>
    have hsame := hall Demo.accounts Demo.signerScoped true result.1 result.2 hresult "0xa"
      legacyAccountAuthFloor Demo.mem_accounts (by decide)
    rw [hresult] at hfloor
    have hnone : Demo.signerScoped.lookup (authStateKey "0xa" legacyAccountAuthFloor) = none := by
      decide
    rw [hnone] at hsame
    exact absurd (hsame.symm.trans (Option.some.inj hfloor)) nofun

end Guardian.Replay.Filesystem
