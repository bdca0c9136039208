import Mathlib.Data.Countable.Basic
import Mathlib.Data.Fintype.Basic
import Mathlib.Logic.Equiv.List
import Guardian.Account.Sequence
import Guardian.Services.GetDeltaSince

/- `get_deltas` of the Rust SDK (`miden-multisig-client/src/client/account.rs`): a
   client at an earlier account fetches the merged delta, applies it, and keeps
   the result if the chain is there.

   The merged delta has what the deltas write, and not what authentication
   writes. The server knows (`apply_summary` adds the executed transaction), the
   client does not, and compares an account without the records with the chain.
   `get_deltas_reaches_canonical` says exactly when that goes well. -/
namespace Guardian

open Signing (Felt)

variable {P : AccountTypes}

/-! ## The client -/

/-- `MultisigError`, as `get_deltas` returns it. -/
inductive MultisigError where
  | guardianServer
  | hexDecode
  | midenClient
  | invalidConfig
  deriving DecidableEq, Repr

/-- What `add_or_update_account` ends with; a commitment mismatch is told by the
text of the error. -/
inductive StoreAnswer where
  | stored
  | commitmentMismatch
  | failed
  deriving DecidableEq, Repr

/-- What a client talks to. -/
structure ClientEnv (P : AccountTypes) where
  getDeltaSince : Nonce → Except GetDeltaSinceError DeltaObject
  /-- `try_get_on_chain_account_commitment`, where the read did not fail. -/
  onChainCommitment : Option (Option Word)
  store : Account P → StoreAnswer
  /-- `reset_miden_client`, and the state and store after it. -/
  resetMidenClient : Bool
  getState : Option (Account P)
  freshStore : Account P → Bool

variable (L : AccountLibrary P) (env : ClientEnv P)

/-- `try_into_tx_summary`: the proposal's format first. -/
def tryIntoTxSummary (payload : Payload) : Option P.Summary :=
  match L.txSummaryField payload with
  | some field => L.summaryFromJson field
  | none => L.summaryFromJson payload

/-- `ensure_safe_to_overwrite_local_state`. -/
def ensureSafeToOverwriteLocalState (incoming : Word) : Except MultisigError Unit :=
  match env.onChainCommitment with
  | none => .error .midenClient
  | some none => .ok ()
  | some (some onChain) => if onChain = incoming then .ok () else .error .invalidConfig

/-- The account is pulled again into a fresh store. -/
def repullAccount : Except MultisigError (Account P) := do
  if !env.resetMidenClient then throw .midenClient
  else
    match env.getState with
    | none => throw .guardianServer
    | some fresh =>
      ensureSafeToOverwriteLocalState env (L.commitment fresh)
      if env.freshStore fresh then return fresh else throw .midenClient

/-- The account a merged delta leads to. -/
def updatedAccount (account : Account P) (delta : AccountDelta P) : Option (Account P) :=
  if isAccountCreation L account delta then L.deltaToNewAccount delta
  else applyAccountDelta L account delta

/-- `get_deltas`, from the merged delta on. -/
def applyMergedDelta (account : Account P) (merged : DeltaObject) :
    Except MultisigError (Account P) :=
  match (tryIntoTxSummary L merged.deltaPayload).bind
      (fun txSummary => updatedAccount L account txSummary.accountDelta) with
  | none => .error .midenClient
  | some updated => do
    ensureSafeToOverwriteLocalState env (L.commitment updated)
    match env.store updated with
    | .stored => return updated
    | .commitmentMismatch => repullAccount L env
    | .failed => throw .midenClient

/-- `current_nonce.saturating_add(1)`. -/
def fromNonce (account : Account P) : Nonce := .ofNat 64 (min (account.nonce.val + 1) (2 ^ 64 - 1))

/-- `get_deltas`: the account the client has then. -/
def getDeltas (account : Account P) : Except MultisigError (Account P) :=
  match env.getDeltaSince (fromNonce account) with
  | .error (.deltaNotFound _) => .ok account
  | .error _ => .error .guardianServer
  | .ok merged =>
    if merged.prevCommitment = "" then applyMergedDelta L env account merged
    else
      match L.wordFromHex merged.prevCommitment with
      | none => .error .hexDecode
      | some prev =>
        if L.commitment account ≠ prev then .ok account
        else applyMergedDelta L env account merged

/-! ## The client behind the server -/

variable {L}

/-- Chained canonical deltas, from one account to another, each labelled with the
nonce it produces. -/
inductive CanonicalChain (L : AccountLibrary P) :
    Account P → List DeltaObject → List P.Summary → Account P → Prop where
  | done (a : Account P) : CanonicalChain L a [] [] a
  | step {a a₁ a' : Account P} {row : DeltaObject} {rows : List DeltaObject} {s : P.Summary}
      {rest : List P.Summary} (payload : L.summaryFromJson row.deltaPayload = some s)
      (base : row.prevCommitment = L.commitment a)
      (applied : applySummary L (some a) s = some a₁) (raises : a.nonce < a₁.nonce)
      (post : row.newCommitment = some (L.commitment a₁))
      (label : row.nonce.toNat = a₁.nonce.val) (canonical : row.status.isCanonical = true)
      (then_ : CanonicalChain L a₁ rows rest a') : CanonicalChain L a (row :: rows) (s :: rest) a'

/-- The client is at `account`, and what the server has canonical after it are
these deltas, which lead to the stored and on-chain account. The column orders
their nonces, and neither the store nor a read fails. -/
structure Behind (L : AccountLibrary P) (env : ClientEnv P) (db : Db) (account : Account P)
    (rows : List DeltaObject) (summaries : List P.Summary) (final : Account P) : Prop where
  executed : account.isNew = false
  chain : CanonicalChain L account rows summaries final
  nonempty : rows ≠ []
  held : ∀ d ∈ rows, ∃ r ∈ db.deltas, r.delta = d
  only : ∀ r ∈ db.deltas, r.delta.status.isCanonical = true →
    account.nonce.val < r.delta.nonce.toNat → r.delta ∈ rows
  narrow : final.nonce.val < 2 ^ 63
  server : env.getDeltaSince = fun n => getDeltaSince (mergeDeltas L) n db
  onChain : env.onChainCommitment = some (some (L.commitment final))
  state : env.getState = some final
  store : ∀ a, env.store a ≠ .failed
  reset : env.resetMidenClient = true
  freshStore : ∀ a, env.freshStore a = true

namespace CanonicalChain
variable {account final : Account P} {rows : List DeltaObject} {summaries : List P.Summary}

theorem serverChain (h : CanonicalChain L account rows summaries final) :
    ServerChain L account summaries final := by
  induction h with
  | done a => exact .done a
  | step _ _ applied raises _ _ _ _ ih => exact .step applied raises ih

theorem mapM_payload (h : CanonicalChain L account rows summaries final) :
    (rows.map (·.deltaPayload)).mapM L.summaryFromJson = some summaries := by
  induction h with
  | done a => rfl
  | step payload _ _ _ _ _ _ _ ih =>
    rw [List.map_cons, List.mapM_cons, payload, ih]
    rfl

theorem nonce_le (h : CanonicalChain L account rows summaries final) :
    account.nonce.val ≤ final.nonce.val := by
  induction h with
  | done a => exact le_refl _
  | step _ _ _ raises _ _ _ _ ih => exact (Nat.le_of_lt (Fin.lt_def.mp raises)).trans ih

/-- The labels lie between the two accounts. -/
theorem labels (h : CanonicalChain L account rows summaries final) :
    ∀ d ∈ rows, account.nonce.val < d.nonce.toNat ∧ d.nonce.toNat ≤ final.nonce.val ∧
      d.status.isCanonical = true := by
  induction h with
  | done a => exact fun d hd => by cases hd
  | step _ _ _ raises _ label canonical then_ ih =>
    intro d hd
    have hlt := Fin.lt_def.mp raises
    rcases List.mem_cons.mp hd with rfl | hd
    · exact ⟨label ▸ hlt, label ▸ then_.nonce_le, canonical⟩
    · exact ⟨hlt.trans (ih d hd).1, (ih d hd).2⟩

theorem ascending (h : CanonicalChain L account rows summaries final) :
    rows.Pairwise (fun a b => a.nonce.toNat < b.nonce.toNat) := by
  induction h with
  | done a => exact .nil
  | step _ _ _ _ _ label _ then_ ih =>
    refine List.pairwise_cons.mpr ⟨fun d hd => ?_, ih⟩
    rw [label]
    exact (then_.labels d hd).1

end CanonicalChain

section Behind
variable {env} {db : Db} {account final : Account P} {rows : List DeltaObject}
  {summaries : List P.Summary}

theorem Behind.summaries_ne (h : Behind L env db account rows summaries final) :
    summaries ≠ [] := by
  rintro rfl
  cases h.chain
  exact h.nonempty rfl

/-- The server merges these deltas. -/
theorem Behind.merges_rows (h : Behind L env db account rows summaries final) :
    deltasToMerge (fromNonce account) db = rows := by
  have hlt := Fin.lt_def.mp (h.chain.serverChain.nonce_lt h.summaries_ne)
  have hnarrow := h.narrow
  have hfrom : (fromNonce account).toNat = account.nonce.val + 1 := by
    unfold fromNonce
    rw [BitVec.toNat_ofNat, Nat.mod_eq_of_lt (by omega)]
    omega
  have hcolumn : ∀ d ∈ rows, nonceColumn (fromNonce account) ≤ nonceColumn d.nonce := by
    intro d hd
    obtain ⟨hlow, hhigh, _⟩ := h.chain.labels d hd
    refine not_lt.mp fun hlt => ?_
    rw [nonceColumn_lt_iff (by omega) (by omega), BitVec.lt_def] at hlt
    omega
  rw [deltasToMerge_eq]
  refine Table.eq_of_sorted (f := fun d : DeltaObject => nonceColumn d.nonce) ?_ ?_ fun d => ?_
  · rw [List.pairwise_map]
    exact db.deltas.sorted_select _
  · refine h.chain.ascending.imp_of_mem fun ha hb hlt => ?_
    obtain ⟨_, ha, _⟩ := h.chain.labels _ ha
    obtain ⟨_, hb, _⟩ := h.chain.labels _ hb
    rw [nonceColumn_lt_iff (by omega) (by omega), BitVec.lt_def]
    exact hlt
  · rw [List.mem_map]
    constructor
    · rintro ⟨r, hr, rfl⟩
      obtain ⟨hmem, hp⟩ := Table.mem_select.mp hr
      rw [Bool.and_eq_true, decide_eq_true_eq] at hp
      refine h.only r hmem hp.1 ?_
      by_contra hlow
      have hlt : nonceColumn r.delta.nonce < nonceColumn (fromNonce account) := by
        rw [nonceColumn_lt_iff (by omega) (by omega), BitVec.lt_def]
        omega
      exact absurd hp.2 (not_le.mpr hlt)
    · intro hd
      obtain ⟨r, hr, rfl⟩ := h.held d hd
      refine ⟨r, Table.mem_select.mpr ⟨hr, ?_⟩, rfl⟩
      rw [Bool.and_eq_true, decide_eq_true_eq]
      exact ⟨(h.chain.labels _ hd).2.2, hcolumn _ hd⟩

/-- The notes of all summaries are accepted as those of one. -/
def NotesFit (L : AccountLibrary P) (summaries : List P.Summary) : Prop :=
  L.acceptsInputNotes (summaries.flatMap (·.inputNotes)) = true ∧
    L.acceptsOutputNotes (summaries.flatMap (·.outputNotes)) = true

instance (L : AccountLibrary P) (summaries : List P.Summary) : Decidable (NotesFit L summaries) :=
  inferInstanceAs (Decidable (_ ∧ _))

/-- Every record the server made that no later delta overwrites is in the
account already, or in the deltas themselves. -/
def ReplayRecorded (L : AccountLibrary P) (account : Account P) (summaries : List P.Summary) :
    Prop :=
  ∀ key ∈ recordedKeys L account summaries, patchedThrough L key
    (L.getMapItem account.storage executedTransactionsSlot key) summaries = some executedFlag

/-- What the server answers: one delta from the client's account, if the notes
fit. -/
theorem Behind.answer (law : L.Lawful) (h : Behind L env db account rows summaries final) :
    ∃ updated, { updated with storage := final.storage } = final ∧
      (updated = final ↔ ReplayRecorded L account summaries) ∧
      match env.getDeltaSince (fromNonce account) with
      | .ok merged => NotesFit L summaries ∧ merged.prevCommitment = L.commitment account ∧
          (tryIntoTxSummary L merged.deltaPayload).bind
            (fun txSummary => updatedAccount L account txSummary.accountDelta) = some updated
      | .error e => ¬NotesFit L summaries ∧ e = .invalidDelta := by
  obtain ⟨delta, updated, hmerge, happly, hparts, hpatched, hrecorded⟩ :=
    h.chain.serverChain.merged law h.executed h.summaries_ne
  refine ⟨updated, hparts, ?_, ?_⟩
  · have hsame : updated = final ↔ final.storage = updated.storage := by
      rw [← hparts]
      cases updated
      simp [eq_comm]
    rw [hsame, foldlM_recordExecuted_eq_self hrecorded]
    unfold ReplayRecorded
    simp only [getMapItem_patchAll hpatched]
  · obtain ⟨d, rest, hrows⟩ := List.exists_cons_of_ne_nil h.nonempty
    have hfirst : d.prevCommitment = L.commitment account := by
      have hchain := h.chain
      rw [hrows] at hchain
      cases hchain with
      | step _ base => exact base
    have hmerged : mergeDeltas L (rows.map (·.deltaPayload)) =
        (mergeSummaries L summaries).map L.summaryToJson := by
      unfold mergeDeltas
      rw [h.chain.mapM_payload]
      exact (Option.map_eq_bind ..).symm
    have hlast := List.getLast?_eq_some_getLast h.summaries_ne
    have hlastRow := List.getLast?_eq_some_getLast h.nonempty
    generalize summaries.getLast h.summaries_ne = last at hlast
    generalize rows.getLast h.nonempty = lastRow at hlastRow
    have hsummary : mergeSummaries L summaries = if NotesFit L summaries then
        some { last with
          accountDelta := delta
          inputNotes := summaries.flatMap (·.inputNotes)
          outputNotes := summaries.flatMap (·.outputNotes) } else none := by
      unfold mergeSummaries
      rw [hlast, Option.bind_eq_bind, Option.bind_some, hmerge, Option.bind_eq_bind,
        Option.bind_some]
      simp only [NotesFit, Bool.and_eq_true]
      rfl
    rw [h.server]
    simp only [getDeltaSince, h.merges_rows, hrows, List.head?_cons]
    rw [← hrows, hlastRow]
    simp only
    rw [hmerged, hsummary]
    by_cases hnotes : NotesFit L summaries
    · rw [if_pos hnotes]
      refine ⟨hnotes, hfirst, ?_⟩
      show (tryIntoTxSummary L (L.summaryToJson _)).bind _ = _
      unfold tryIntoTxSummary updatedAccount
      rw [law.txSummaryField_summary]
      simp only
      rw [law.summary_json, Option.bind_some]
      simp only
      rw [not_isAccountCreation h.executed]
      exact happly
    · rw [if_neg hnotes]
      exact ⟨hnotes, rfl⟩

theorem Behind.ensureSafe (law : L.Lawful) (h : Behind L env db account rows summaries final)
    (a : Account P) : ensureSafeToOverwriteLocalState env (L.commitment a) = .ok () ↔ a = final := by
  unfold ensureSafeToOverwriteLocalState
  rw [h.onChain]
  simp only
  split
  · next heq => exact iff_of_true rfl (law.commitment_inj heq).symm
  · next hne =>
    refine iff_of_false (fun hok => by cases hok) ?_
    rintro rfl
    exact hne rfl

/-- A merged delta is kept exactly when it leads to the stored account. -/
theorem Behind.applyMergedDelta (law : L.Lawful)
    (h : Behind L env db account rows summaries final) {merged : DeltaObject} {updated : Account P}
    (hupdated : (tryIntoTxSummary L merged.deltaPayload).bind
      (fun txSummary => updatedAccount L account txSummary.accountDelta) = some updated) :
    (∃ a, Guardian.applyMergedDelta L env account merged = .ok a ∧
      L.commitment a = L.commitment final) ↔ updated = final := by
  unfold Guardian.applyMergedDelta
  rw [hupdated]
  simp only
  by_cases heq : updated = final
  · refine iff_of_true ⟨final, ?_, rfl⟩ heq
    have hsafe := (h.ensureSafe law final).mpr rfl
    rw [heq, hsafe]
    show (match env.store final with
      | .stored => pure final
      | .commitmentMismatch => repullAccount L env
      | .failed => .error MultisigError.midenClient) = _
    cases hstore : env.store final with
    | stored => rfl
    | failed => exact absurd hstore (h.store final)
    | commitmentMismatch =>
      simp only [repullAccount, h.reset, h.state, h.freshStore, hsafe]
      rfl
  · refine iff_of_false ?_ heq
    rintro ⟨a, hok, _⟩
    cases hsafe : ensureSafeToOverwriteLocalState env (L.commitment updated) with
    | error e =>
      rw [hsafe] at hok
      cases hok
    | ok u => exact heq ((h.ensureSafe law updated).mp hsafe)

/-- The server cannot merge notes that do not fit. -/
theorem Behind.getDeltas_error (law : L.Lawful) (h : Behind L env db account rows summaries final)
    (hnotes : ¬NotesFit L summaries) : getDeltas L env account = .error .guardianServer := by
  obtain ⟨_, _, _, hanswer⟩ := h.answer law
  unfold getDeltas
  cases hresponse : env.getDeltaSince (fromNonce account) with
  | error e =>
    rw [hresponse] at hanswer
    obtain ⟨_, rfl⟩ := hanswer
    rfl
  | ok merged =>
    rw [hresponse] at hanswer
    exact absurd hanswer.1 hnotes

/-- Otherwise the client goes on from the merged delta. -/
theorem Behind.getDeltas_eq (law : L.Lawful) (h : Behind L env db account rows summaries final)
    (hnotes : NotesFit L summaries) : ∃ merged updated,
      getDeltas L env account = Guardian.applyMergedDelta L env account merged ∧
      (tryIntoTxSummary L merged.deltaPayload).bind
        (fun txSummary => updatedAccount L account txSummary.accountDelta) = some updated ∧
      (updated = final ↔ ReplayRecorded L account summaries) := by
  obtain ⟨updated, _, hrecorded, hanswer⟩ := h.answer law
  unfold getDeltas
  cases hresponse : env.getDeltaSince (fromNonce account) with
  | error e =>
    rw [hresponse] at hanswer
    exact absurd hnotes hanswer.1
  | ok merged =>
    rw [hresponse] at hanswer
    obtain ⟨_, hprev, hupdated⟩ := hanswer
    refine ⟨merged, updated, ?_, hupdated, hrecorded⟩
    simp only
    rw [hprev, if_neg (law.commitment_ne account), law.wordFromHex_commitment]
    simp only
    rw [if_neg (not_not.mpr rfl)]

end Behind

/-- A client behind the server gets to the stored account exactly when the
deltas' notes fit one summary and everything the server recorded for
authentication is in the deltas or in the account already. -/
theorem get_deltas_reaches_canonical (L : AccountLibrary P) (law : L.Lawful) (env : ClientEnv P)
    (db : Db) (account final : Account P) (rows : List DeltaObject) (summaries : List P.Summary)
    (h : Behind L env db account rows summaries final) :
    (∃ a, getDeltas L env account = .ok a ∧ L.commitment a = L.commitment final) ↔
      NotesFit L summaries ∧ ReplayRecorded L account summaries := by
  by_cases hnotes : NotesFit L summaries
  · obtain ⟨merged, updated, hget, hupdated, hrecorded⟩ := h.getDeltas_eq law hnotes
    rw [hget, h.applyMergedDelta law hupdated, hrecorded]
    exact ⟨fun hr => ⟨hnotes, hr⟩, fun hc => hc.2⟩
  · refine iff_of_false ?_ fun hc => hnotes hc.1
    rintro ⟨a, ha, _⟩
    rw [h.getDeltas_error law hnotes] at ha
    cases ha

/-! ## A client to run -/

namespace Demo

/-- The most a vault may hold of an asset. -/
def maxAmount : Nat := 1000

/-- An account and a faucet. A storage is the executed transactions map, as the
set of its keys, and a storage patch sets flags. -/
abbrev ledgerTypes : AccountTypes where
  AccountId := Bool
  NonFungible := Empty
  Vault := Bool → Fin (maxAmount + 1)
  Storage := Finset String
  StoragePatch := Finset String
  Code := String
  CodePatch := Option String
  InputNote := String
  OutputNote := String
  decAccountId := inferInstance
  decNonFungible := inferInstance

/-! Values of countable types, as texts. -/

instance countableChar : Countable Char :=
  Function.Injective.countable (f := Char.toNat) fun _ _ => Char.toNat_inj.mp

instance countableString : Countable String :=
  Function.Injective.countable (f := String.toList) fun _ _ => String.toList_inj.mp

noncomputable def textOf {α : Type} [Countable α] (a : α) : String :=
  .ofList (List.replicate ((Countable.exists_injective_nat α).choose a + 1) '1')

theorem textOf_injective {α : Type} [Countable α] {a b : α} (h : textOf a = textOf b) : a = b := by
  have hlength := congrArg List.length (String.ofList_inj.mp h)
  rw [List.length_replicate, List.length_replicate] at hlength
  exact (Countable.exists_injective_nat α).choose_spec (Nat.succ.inj hlength)

theorem textOf_ne {α : Type} [Countable α] (a : α) : textOf a ≠ "" := by
  intro h
  have hlength := congrArg String.length h
  simp [textOf] at hlength

def accountParts (a : Account ledgerTypes) :
    Bool × (Bool → Fin (maxAmount + 1)) × Finset String × String × Felt :=
  (a.id, a.vault, a.storage, a.code, a.nonce)

instance : Countable (Account ledgerTypes) :=
  Function.Injective.countable (f := accountParts) fun a b h => by
    cases a
    cases b
    simp_all [accountParts]

def assetDeltaParts (d : AssetDelta ledgerTypes) : Bool × Bool × Nat :=
  match d with
  | ⟨operation, .fungible faucetId amount⟩ => (operation = .add, faucetId, amount)
  | ⟨_, .nonFungible asset⟩ => asset.elim

instance : Countable (AssetDelta ledgerTypes) :=
  Function.Injective.countable (f := assetDeltaParts) fun a b h => by
    obtain ⟨operation, asset⟩ := a
    obtain ⟨operation', asset'⟩ := b
    cases asset with
    | nonFungible asset => exact asset.elim
    | fungible faucetId amount =>
      cases asset' with
      | nonFungible asset => exact asset.elim
      | fungible faucetId' amount' =>
        cases operation <;> cases operation' <;> simp_all [assetDeltaParts]

def summaryParts (s : ledgerTypes.Summary) : (Bool × Finset String × List (AssetDelta ledgerTypes) ×
    Option String × Felt) × List String × List String × Nat × String × Nat × List Nat :=
  ((s.accountDelta.id, s.accountDelta.storage, s.accountDelta.vault.assets, s.accountDelta.code,
    s.accountDelta.nonceDelta), s.inputNotes, s.outputNotes, s.blockNumber, s.blockCommitment,
    s.expirationDelta, s.userParams)

instance : Countable ledgerTypes.Summary :=
  Function.Injective.countable (f := summaryParts) fun a b h => by
    obtain ⟨⟨_, _, ⟨_, _⟩, _, _⟩, _, _, _, _, _, _⟩ := a
    obtain ⟨⟨_, _, ⟨_, _⟩, _, _⟩, _, _, _, _, _, _⟩ := b
    simp_all [summaryParts]

/-- The units left of a faucet's asset by a vault patch. -/
def leftUnits (v : Bool → Fin (maxAmount + 1)) (patch : AccountVaultPatch ledgerTypes)
    (faucetId : Bool) : Nat :=
  (patchedUnits patch (.fungible faucetId)).getD (v faucetId)

/-- `apply_patch`. -/
def patchAccount (a : Account ledgerTypes) (p : AccountPatch ledgerTypes) :
    Option (Account ledgerTypes) :=
  if h : p.id = a.id ∧ (∀ f, leftUnits a.vault p.vault f ≤ maxAmount) ∧
      p.finalNonce.all (a.nonce < ·) then
    some
      { id := a.id
        vault := fun f => ⟨leftUnits a.vault p.vault f, Nat.lt_succ_of_le (h.2.1 f)⟩
        storage := a.storage ∪ p.storage
        code := p.code.getD a.code
        nonce := p.finalNonce.getD a.nonce }
  else none

noncomputable def ledgerLibrary : AccountLibrary ledgerTypes where
  maxAmount := maxAmount
  emptyVault := fun _ => 0
  vaultAssets := fun v => [.fungible false (v false), .fungible true (v true)]
  addAsset
    | v, .fungible faucetId amount =>
      if h : v faucetId + amount ≤ maxAmount then
        some (.fungible faucetId (v faucetId + amount),
          Function.update v faucetId ⟨v faucetId + amount, Nat.lt_succ_of_le h⟩)
      else none
    | _, .nonFungible asset => asset.elim
  removeAsset
    | v, .fungible faucetId amount =>
      if amount ≤ v faucetId then
        some (if v faucetId = amount then none else some (.fungible faucetId (v faucetId - amount)),
          Function.update v faucetId ⟨v faucetId - amount, by have := (v faucetId).isLt; omega⟩)
      else none
    | _, .nonFungible asset => asset.elim
  getItem := fun _ slot => if slot = Account.thresholdConfigSlot then some "threshold" else none
  getMapItem := fun s slot key =>
    if slot = executedTransactionsSlot then some (if key ∈ s then executedFlag else "empty") else none
  patchFromSlots := some
  patchFromEntries
    | [] => some ∅
    | [(slot, key, value)] =>
      if slot = executedTransactionsSlot ∧ value = executedFlag then some {key} else none
    | _ => none
  emptyStoragePatch := ∅
  storagePatchIsEmpty := fun p => p = ∅
  mergeStorage := fun p q => some (p ∪ q)
  patchedEntry := fun p slot key =>
    if slot = executedTransactionsSlot ∧ key ∈ p then some (some executedFlag) else none
  codePatch := some
  codePatchIsEmpty := Option.isNone
  mergeCode := fun p q => q.or p
  acceptsDelta := fun d => d.nonceDelta.val ≠ 0
  acceptsPatch := fun _ => true
  deltaIsEmpty := fun d =>
    d.nonceDelta.val = 0 ∧ d.storage = ∅ ∧ d.vault.assets.isEmpty ∧ d.code.isNone
  applyPatch := patchAccount
  patchToNewAccount := fun _ => none
  deltaToNewAccount := fun _ => none
  commitment := textOf
  acceptsInputNotes := fun notes => notes.length ≤ 1024
  acceptsOutputNotes := fun notes => notes.length ≤ 1024
  summaryCommitment := textOf
  summaryFromJson := Function.partialInv textOf
  summaryToJson := textOf
  txSummaryField := fun _ => none
  wordFromHex := some

def ledgerUnits (v : Bool → Fin (maxAmount + 1)) : AssetId ledgerTypes → Nat
  | .fungible faucetId => v faucetId
  | .nonFungible asset => asset.elim

noncomputable def ledgerLawful : ledgerLibrary.Lawful where
  maxAmount_lt := by
    show maxAmount < 2 ^ 64
    unfold maxAmount
    omega
  units := ledgerUnits
  units_le := fun v id => by
    cases id with
    | fungible faucetId => exact Nat.le_of_lt_succ (v faucetId).isLt
    | nonFungible asset => exact asset.elim
  vault_ext := fun h => funext fun faucetId => Fin.ext (h (.fungible faucetId))
  add_units := fun {v asset final v'} h => by
    cases asset with
    | nonFungible asset => exact asset.elim
    | fungible faucetId amount =>
      simp only [ledgerLibrary] at h
      split at h
      · cases h
        refine ⟨rfl, rfl, fun id => ?_⟩
        cases id with
        | nonFungible asset => exact asset.elim
        | fungible f =>
          by_cases hf : faucetId = f
          · subst hf
            simp [ledgerUnits]
          · simp [ledgerUnits, hf, Function.update_of_ne (Ne.symm hf)]
      · cases h
  add_of := fun {v asset} h => by
    cases asset with
    | nonFungible asset => exact asset.elim
    | fungible faucetId amount => exact ⟨_, dif_pos h⟩
  remove_units := fun {v asset final v'} h => by
    cases asset with
    | nonFungible asset => exact asset.elim
    | fungible faucetId amount =>
      simp only [ledgerLibrary] at h
      split at h
      · next hle =>
        cases h
        refine ⟨fun left hleft => ?_, ?_, fun id => ?_⟩
        · split at hleft
          · cases hleft
          · cases hleft
            rfl
        · split
          · next heq => simpa [ledgerUnits] using heq.symm
          · simp only [Option.map_some, Option.getD_some, Asset.units_fungible, Asset.id_fungible,
              ledgerUnits]
            omega
        · cases id with
          | nonFungible asset => exact asset.elim
          | fungible f =>
            by_cases hf : faucetId = f
            · subst hf
              simp [ledgerUnits, hle]
            · simp [ledgerUnits, hf, Function.update_of_ne (Ne.symm hf)]
      · cases h
  remove_of := fun {v asset} h => by
    cases asset with
    | nonFungible asset => exact asset.elim
    | fungible faucetId amount => exact ⟨_, if_pos h⟩
  applyStorage := fun p s => some (s ∪ p)
  applyCode := fun p c => p.getD c
  applyStorage_empty := fun s => congrArg some (Finset.union_empty s)
  patchFromEntries_nil := rfl
  applyStorage_merge := fun h s => by
    cases h
    exact congrArg some (Finset.union_assoc ..).symm
  mergeStorage_of := fun _ _ => ⟨_, rfl⟩
  applyCode_merge := fun p q c => by
    cases q with
    | none => rfl
    | some code => rfl
  getMapItem_apply := fun {p s s'} h slot key => by
    cases h
    by_cases hslot : slot = executedTransactionsSlot
    · by_cases hkey : key ∈ p
      · simp [ledgerLibrary, hslot, hkey]
      · simp [ledgerLibrary, hslot, hkey]
    · simp [ledgerLibrary, hslot]
  patchedEntry_entry := fun {slot key value p} h key' => by
    simp only [ledgerLibrary] at h ⊢
    split at h
    · next hentry =>
      cases h
      simp [hentry.1, hentry.2, eq_comm]
    · cases h
  applyStorage_entry := fun {slot key value p s} h hitem => by
    simp only [ledgerLibrary] at h hitem
    split at h
    · next hentry =>
      cases h
      rw [if_pos hentry.1, Option.some.injEq, hentry.2] at hitem
      have hmem : key ∈ s := by
        by_contra hnot
        rw [if_neg hnot] at hitem
        exact absurd hitem (by decide)
      exact congrArg some (by simpa using hmem)
    · cases h
  applyStorage_comm := fun {slot key value e s s'} h happly p => by
    simp only [ledgerLibrary] at h ⊢
    split at h
    · next hentry =>
      cases h
      cases happly
      by_cases hkey : key ∈ p
      · simp [hentry.1, hkey]
      · simp [hentry.1, hkey]
    · cases h
  deltaIsEmpty_nonce := fun h => by
    simp only [ledgerLibrary, decide_eq_true_eq] at h
    exact h.1
  acceptsDelta_of := fun h => by simpa [ledgerLibrary] using h
  acceptsPatch_of := fun _ _ => rfl
  applyPatch_ok := fun {a p a'} h => by
    simp only [ledgerLibrary, patchAccount] at h
    split at h
    · cases h
      refine ⟨rfl, fun id => ?_, rfl, rfl, rfl⟩
      cases id with
      | nonFungible asset => exact asset.elim
      | fungible f => rfl
    · cases h
  applyPatch_of := fun {a p s nonce} hid _ hunits hnonce hlt => by
    refine ⟨_, dif_pos ⟨hid, fun f => ?_, by simpa [hnonce] using hlt⟩⟩
    unfold leftUnits
    cases hp : patchedUnits p.vault (.fungible f) with
    | none => exact Nat.le_of_lt_succ (a.vault f).isLt
    | some n => exact hunits _ n hp
  commitment_inj := textOf_injective
  commitment_ne := textOf_ne
  wordFromHex_commitment := fun _ => rfl
  summary_json := Function.partialInv_left fun _ _ => textOf_injective
  txSummaryField_summary := fun _ => rfl

theorem one_lt_order : 1 < Signing.order := by decide

/-- An account with ten units of the faucet's asset and one transaction behind
it; `executed` are the keys of its executed transactions map. -/
def holder (executed : Finset String) : Account ledgerTypes where
  id := false
  vault := fun faucetId => if faucetId then 10 else 0
  storage := executed
  code := "code"
  nonce := ⟨1, one_lt_order⟩

/-- Four units leave in a note. -/
def transferred : ledgerTypes.Summary where
  accountDelta :=
    { id := false
      storage := ∅
      vault := ⟨[⟨.remove, .fungible true 4⟩], List.nodup_singleton _⟩
      code := none
      nonceDelta := ⟨1, one_lt_order⟩ }
  inputNotes := []
  outputNotes := ["note"]
  blockNumber := 7
  blockCommitment := "block"
  expirationDelta := 5
  userParams := [9]

theorem applySummary_transferred (executed : Finset String) :
    ∃ final, applySummary ledgerLibrary (some (holder executed)) transferred = some final ∧
      final.nonce.val = 2 := by
  have hentries : replayEntries ledgerLibrary (holder executed) transferred =
      [(executedTransactionsSlot, textOf transferred, executedFlag)] := rfl
  have hs : ledgerLawful.applyStorage transferred.accountDelta.storage (holder executed).storage =
      some (executed ∪ ∅) := rfl
  have hs' : ledgerLawful.applyStorage {textOf transferred} (executed ∪ ∅) =
      some (executed ∪ ∅ ∪ {textOf transferred}) := rfl
  have hfits : ∀ faucetId : Bool,
      0 ≤ (ledgerUnits (holder ∅).vault (.fungible faucetId) : Int) +
        Ledger.net transferred.accountDelta.vault.entries (.fungible faucetId) ∧
      (ledgerUnits (holder ∅).vault (.fungible faucetId) : Int) +
        Ledger.net transferred.accountDelta.vault.entries (.fungible faucetId) ≤ maxAmount := by
    decide
  have hlt : (holder ∅).nonce < (holder ∅).nonce + transferred.accountDelta.nonceDelta := by decide
  have hnext : ((holder ∅).nonce + transferred.accountDelta.nonceDelta).val = 2 := by decide
  obtain ⟨final, hfinal, hnonce⟩ := applyAccountDelta_of ledgerLawful.toComposes rfl rfl hs hs'
    (fun id => by
      cases id with
      | nonFungible asset => exact asset.elim
      | fungible faucetId => exact hfits faucetId) (by decide) hlt
  refine ⟨final, ?_, ?_⟩
  · rw [applySummary_eq rfl, hentries]
    exact hfinal
  · rw [hnonce]
    exact hnext

/-- One canonical delta, from `holder executed` to `final`. -/
noncomputable def transferRow (executed : Finset String) (final : Account ledgerTypes) :
    DeltaObject where
  nonce := 2
  prevCommitment := ledgerLibrary.commitment (holder executed)
  newCommitment := some (ledgerLibrary.commitment final)
  deltaPayload := ledgerLibrary.summaryToJson transferred
  status := .canonical 0

noncomputable def transferDb (executed : Finset String) (final : Account ledgerTypes) : Db :=
  { Db.empty with deltas := ⟨[⟨0, transferRow executed final⟩], List.pairwise_singleton _ _⟩ }

noncomputable def transferEnv (executed : Finset String) (final : Account ledgerTypes) :
    ClientEnv ledgerTypes where
  getDeltaSince := fun n => getDeltaSince (mergeDeltas ledgerLibrary) n (transferDb executed final)
  onChainCommitment := some (some (ledgerLibrary.commitment final))
  store := fun _ => .stored
  resetMidenClient := true
  getState := some final
  freshStore := fun _ => true

theorem behind_transfer {executed : Finset String} {final : Account ledgerTypes}
    (h : applySummary ledgerLibrary (some (holder executed)) transferred = some final)
    (hnonce : final.nonce.val = 2) :
    Behind ledgerLibrary (transferEnv executed final) (transferDb executed final) (holder executed)
      [transferRow executed final] [transferred] final where
  executed := rfl
  chain := by
    refine .step (ledgerLawful.summary_json transferred) rfl h ?_ rfl ?_ rfl (.done final)
    · rw [Fin.lt_def, hnonce]
      exact Nat.one_lt_two
    · rw [hnonce]
      rfl
  nonempty := List.cons_ne_nil _ _
  held := fun d hd => ⟨⟨0, d⟩, by
    rw [List.mem_singleton.mp hd]
    exact List.mem_singleton_self _, rfl⟩
  only := fun r hr _ _ => by
    rw [List.mem_singleton.mp hr]
    exact List.mem_singleton_self _
  narrow := by
    rw [hnonce]
    decide
  server := rfl
  onChain := rfl
  state := rfl
  store := fun _ h => by cases h
  reset := rfl
  freshStore := fun _ => rfl

theorem replayRecorded_transfer {executed : Finset String} {final : Account ledgerTypes}
    (h : applySummary ledgerLibrary (some (holder executed)) transferred = some final) :
    ReplayRecorded ledgerLibrary (holder executed) [transferred] ↔ textOf transferred ∈ executed := by
  have hauth : (holder executed).hasMultisigAuth ledgerLibrary = true := rfl
  have hkeys : recordedKeys ledgerLibrary (holder executed) [transferred] = [textOf transferred] := by
    rw [recordedKeys_cons h, hauth]
    rfl
  have hentry : patchedThrough ledgerLibrary (textOf transferred) (ledgerLibrary.getMapItem
      (holder executed).storage executedTransactionsSlot (textOf transferred)) [transferred] =
        some (if textOf transferred ∈ executed then executedFlag else "empty") := by
    have hpatch : ∀ key, ledgerLibrary.patchedEntry transferred.accountDelta.storage
        executedTransactionsSlot key = none := by
      intro key
      simp [ledgerLibrary, transferred]
    unfold patchedThrough
    rw [List.foldl_cons, List.foldl_nil, hpatch, Option.getD_none]
    simp only [ledgerLibrary, if_true]
    rfl
  unfold ReplayRecorded
  rw [hkeys, List.forall_mem_singleton, hentry, Option.some.injEq]
  split
  · next hmem => exact iff_of_true rfl hmem
  · next hmem => exact iff_of_false (by decide) hmem

end Demo

/-- An account that has the record already gets to the stored account. -/
theorem get_deltas_reaches_canonical_transfer : ∃ final a,
    Behind Demo.ledgerLibrary (Demo.transferEnv {Demo.textOf Demo.transferred} final)
      (Demo.transferDb {Demo.textOf Demo.transferred} final)
      (Demo.holder {Demo.textOf Demo.transferred})
      [Demo.transferRow {Demo.textOf Demo.transferred} final] [Demo.transferred] final ∧
    getDeltas Demo.ledgerLibrary (Demo.transferEnv {Demo.textOf Demo.transferred} final)
      (Demo.holder {Demo.textOf Demo.transferred}) = .ok a ∧
    Demo.ledgerLibrary.commitment a = Demo.ledgerLibrary.commitment final := by
  obtain ⟨final, hfinal, hnonce⟩ := Demo.applySummary_transferred {Demo.textOf Demo.transferred}
  have hbehind := Demo.behind_transfer hfinal hnonce
  have hrecorded := (Demo.replayRecorded_transfer hfinal).mpr (Finset.mem_singleton_self _)
  have hnotes : NotesFit Demo.ledgerLibrary [Demo.transferred] := ⟨rfl, rfl⟩
  obtain ⟨a, ha⟩ := (get_deltas_reaches_canonical Demo.ledgerLibrary Demo.ledgerLawful _ _ _ _ _ _
    hbehind).mpr ⟨hnotes, hrecorded⟩
  exact ⟨final, a, hbehind, ha⟩

/-- A multisig account gets one delta, and refuses its own result. -/
theorem get_deltas_misses_replay_record : ∃ final,
    (Demo.holder ∅).hasMultisigAuth Demo.ledgerLibrary = true ∧
    Behind Demo.ledgerLibrary (Demo.transferEnv ∅ final) (Demo.transferDb ∅ final) (Demo.holder ∅)
      [Demo.transferRow ∅ final] [Demo.transferred] final ∧
    ¬∃ a, getDeltas Demo.ledgerLibrary (Demo.transferEnv ∅ final) (Demo.holder ∅) = .ok a ∧
      Demo.ledgerLibrary.commitment a = Demo.ledgerLibrary.commitment final := by
  obtain ⟨final, hfinal, hnonce⟩ := Demo.applySummary_transferred ∅
  have hbehind := Demo.behind_transfer hfinal hnonce
  have hnotes : NotesFit Demo.ledgerLibrary [Demo.transferred] := ⟨rfl, rfl⟩
  obtain ⟨merged, updated, hget, hupdated, hrecorded⟩ :=
    hbehind.getDeltas_eq Demo.ledgerLawful hnotes
  refine ⟨final, rfl, hbehind, ?_⟩
  rw [hget, hbehind.applyMergedDelta Demo.ledgerLawful hupdated, hrecorded,
    Demo.replayRecorded_transfer hfinal]
  exact Finset.notMem_empty _

end Guardian
