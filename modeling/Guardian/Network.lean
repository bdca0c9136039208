import Mathlib.Data.List.Sort
import Guardian.Lib.Lineage
import Guardian.Storage

/- The network a state lives on (`server/src/network/mod.rs`, `network/miden/
   mod.rs`). What the server asks the account library is a parameter, `Network`:
   the commitment, nonce and signers of a state document, and the state a delta
   leads to. What it asks a node is answered from the account's `Chain`: the
   commitments the account has had, each with the block that brought it, and
   the tip. A node may lag, so every read is served at some block of the chain.

   Assumptions about the library are the fields of `Network.Coherent`. A network is
   `Lawful` where moreover every delta changes the state: the library also applies
   an empty delta, which ends at its own base. "A commitment has one lineage" is
   `Network.OneLineage`. -/
namespace Guardian

/-- `AppliedState`. -/
structure AppliedState where
  stateJson : StateJson
  commitment : Commitment
  nonce : Option Nat
  cosigners : List ChainCosigner
  guardianCommitment : Option String
  deriving DecidableEq, Repr

/-- `AppliedState::updated_auth`. -/
def AppliedState.updatedAuth (applied : AppliedState) (current : Auth) : Option Auth :=
  if applied.cosigners.isEmpty then none else some (current.withChainCosigners applied.cosigners)

/-- `StateHead`. -/
structure StateHead where
  commitment : Commitment
  nonce : Option Nat
  deriving DecidableEq, Repr

/-- What the server computes with the account library. -/
structure Network where
  getStateHead : StateJson → Option StateHead
  applyDelta : StateJson → Payload → Option AppliedState
  /-- `extract_chain_cosigners` of the account in the document. -/
  chainCosigners : StateJson → List ChainCosigner
  extractGuardianCommitment : StateJson → Option String
  extractGuardianScheme : StateJson → Option SignatureScheme
  deltaProposalId : Nonce → Payload → Option String
  /-- `MultisigAccount::from_state` and `authorize`: whether the proposal's
  signatures carry the delta on this state. -/
  authorizes : StateJson → Payload → Option DeltaObject → Bool
  /-- The stateless checks of a `/configure` request: credential, guardian key,
  multisig auth and the signature of `signer`. -/
  validateConfiguration : StateJson → Auth → String → Bool
  validateFirstState : StateJson → Bool

/-- `AuthBinding`: who may act on an account. -/
structure AuthBinding where
  signers : List ChainCosigner
  guardian : Option String
  guardianScheme : Option SignatureScheme
  deriving DecidableEq, Repr

namespace Network
variable (net : Network)

/-- `account_auth_binding`: the signers are sorted by commitment. -/
def accountAuthBinding (stateJson : StateJson) : Option AuthBinding :=
  (net.getStateHead stateJson).map (fun _ =>
    { signers := (net.chainCosigners stateJson).insertionSort (fun a b => a.commitment ≤ b.commitment)
      guardian := net.extractGuardianCommitment stateJson
      guardianScheme := net.extractGuardianScheme stateJson })

/-- `ensure_prev_commitment`, then `apply_delta`. -/
def verifyAndApplyDelta (prev : Commitment) (stateJson : StateJson) (payload : Payload) :
    Option AppliedState :=
  match net.getStateHead stateJson with
  | none => none
  | some head => if head.commitment = prev then net.applyDelta stateJson payload else none

/-- `should_update_auth`. -/
def shouldUpdateAuth (stateJson : StateJson) (auth : Auth) : Option Auth :=
  if (net.chainCosigners stateJson).isEmpty then none
  else some (auth.withChainCosigners (net.chainCosigners stateJson))

/-- `stateJson` is a state with commitment `c`. -/
def IsState (stateJson : StateJson) (c : Commitment) : Prop :=
  ∃ head, net.getStateHead stateJson = some head ∧ head.commitment = c

/-- Some delta leads from a state with commitment `a` to one with `b`. -/
def Step (a b : Commitment) : Prop :=
  ∃ s p applied, net.IsState s a ∧ net.applyDelta s p = some applied ∧ applied.commitment = b

/-- The delta `p` leads from a state with commitment `a` to one with `b`. -/
def Leads (a : Commitment) (p : Payload) (b : Commitment) : Prop :=
  ∃ s applied, net.IsState s a ∧ net.applyDelta s p = some applied ∧ applied.commitment = b

/-- What the account library is relied on for. -/
structure Coherent where
  /-- `apply_delta` reports the commitment and the signers of the state it
  returns. -/
  apply_isState : ∀ {s p applied}, net.applyDelta s p = some applied →
    net.IsState applied.stateJson applied.commitment
  apply_cosigners : ∀ {s p applied}, net.applyDelta s p = some applied →
    applied.cosigners = net.chainCosigners applied.stateJson
  /-- A commitment determines the state it commits to: the signers it lists and
  where a delta leads from it. -/
  cosigners_congr : ∀ {s s' c}, net.IsState s c → net.IsState s' c →
    net.chainCosigners s = net.chainCosigners s'
  apply_congr : ∀ {s s' c p applied applied'}, net.IsState s c → net.IsState s' c →
    net.applyDelta s p = some applied → net.applyDelta s' p = some applied' →
    applied.commitment = applied'.commitment
  /-- The account nonce a commitment binds, which every delta raises that changes
  the state. -/
  rank : Commitment → Nat
  rank_lt_of_ne : ∀ {a b}, net.Step a b → a ≠ b → rank a < rank b
  /-- Commitments are printed in lower case. -/
  lower : ∀ {s c}, net.IsState s c → c.toLower = c

/-- Every delta changes the state it is applied to. -/
structure Lawful extends net.Coherent where
  moves : ∀ {a b}, net.Step a b → a ≠ b

theorem Lawful.rank_lt {net : Network} (law : net.Lawful) {a b : Commitment} (h : net.Step a b) :
    law.rank a < law.rank b := law.rank_lt_of_ne h (law.moves h)

/-- A commitment is reached from one parent only. -/
def OneLineage : Prop := ∀ {a b c}, net.Step a c → net.Step b c → a = b

/-- The lineage of commitments of a lawful network. -/
def lineage {net : Network} (law : net.Lawful) (one : net.OneLineage) : Lineage Commitment where
  step := net.Step
  rank := law.rank
  rank_lt := law.rank_lt
  parent_unique := one

variable {net}

theorem Step.of_apply {s : StateJson} {a : Commitment} {p : Payload} {applied : AppliedState}
    (hs : net.IsState s a) (h : net.applyDelta s p = some applied) :
    net.Step a applied.commitment := ⟨s, p, applied, hs, h, rfl⟩

theorem Leads.step {a b : Commitment} {p : Payload} (h : net.Leads a p b) : net.Step a b := by
  obtain ⟨s, applied, hs, ha, hb⟩ := h
  exact ⟨s, p, applied, hs, ha, hb⟩

/-- Where a delta leads does not depend on the document it is applied to. -/
theorem Leads.eq (law : net.Coherent) {a b : Commitment} {s : StateJson} {p : Payload}
    {applied : AppliedState} (h : net.Leads a p b) (hs : net.IsState s a)
    (ha : net.applyDelta s p = some applied) : applied.commitment = b := by
  obtain ⟨s', applied', hs', ha', rfl⟩ := h
  exact law.apply_congr hs hs' ha ha'

theorem verifyAndApplyDelta_eq_some {prev : Commitment} {s : StateJson} {p : Payload}
    {applied : AppliedState} (h : net.verifyAndApplyDelta prev s p = some applied) :
    net.IsState s prev ∧ net.applyDelta s p = some applied := by
  unfold verifyAndApplyDelta at h
  split at h
  · cases h
  · next head hh =>
    split at h
    · next hc => exact ⟨⟨head, hh, hc⟩, h⟩
    · cases h

theorem IsState.unique {s : StateJson} {a b : Commitment} (ha : net.IsState s a)
    (hb : net.IsState s b) : a = b := by
  obtain ⟨head, hh, rfl⟩ := ha
  obtain ⟨head', hh', rfl⟩ := hb
  rw [hh] at hh'
  cases hh'
  rfl

theorem Coherent.step_isState (law : net.Coherent) {a b : Commitment} (h : net.Step a b) :
    ∃ s, net.IsState s b := by
  obtain ⟨s, p, applied, _, ha, rfl⟩ := h
  exact ⟨_, law.apply_isState ha⟩

/-- Two states with commitments that differ in case only have one
commitment. -/
theorem Coherent.eq_of_ignoreCase (law : net.Coherent) {s s' : StateJson} {a b : Commitment}
    (ha : net.IsState s a) (hb : net.IsState s' b) (h : eqIgnoreAsciiCase a b = true) : a = b := by
  have h' : a.toLower = b.toLower := by simpa [eqIgnoreAsciiCase] using h
  rw [← law.lower ha, ← law.lower hb, h']

/-! ## A network to run -/

/-- A network small enough to run. A state is a word in lower case, its own
commitment, and a delta appends a letter; the letter `k` rotates the signer's
key. The account nonce counts letters from `origin`. -/
def letters (origin : Nat) : Network where
  getStateHead := fun s =>
    if s ≠ "" ∧ s.toLower = s then some ⟨s, some (origin + (s.length - 1))⟩ else none
  applyDelta := fun s p =>
    if s ≠ "" ∧ s.toLower = s ∧ p.length = 1 ∧ (s ++ p).toLower = s ++ p then
      some ⟨s ++ p, s ++ p, some (origin + ((s ++ p).length - 1)), signers (s ++ p), some "guardian"⟩
    else none
  chainCosigners := signers
  extractGuardianCommitment := fun _ => some "guardian"
  extractGuardianScheme := fun _ => some .falcon
  deltaProposalId := fun _ p => some p
  authorizes := fun _ _ _ => true
  validateConfiguration := fun _ _ _ => true
  validateFirstState := fun s => s == "s"
where
  signers (s : StateJson) : List ChainCosigner := [⟨if 'k' ∈ s.toList then "new" else "old", none⟩]

section Letters
variable {origin : Nat} {s p : String} {a b c : Commitment} {applied : AppliedState}

theorem letters_isState : (letters origin).IsState s c ↔ c = s ∧ s ≠ "" ∧ s.toLower = s := by
  simp only [IsState, letters]
  constructor
  · rintro ⟨head, hh, rfl⟩
    split at hh
    · next h => cases hh; exact ⟨rfl, h⟩
    · cases hh
  · rintro ⟨rfl, h⟩
    exact ⟨_, if_pos h, rfl⟩

theorem letters_apply (h : (letters origin).applyDelta s p = some applied) :
    applied.stateJson = s ++ p ∧ applied.commitment = s ++ p ∧
      applied.cosigners = letters.signers (s ++ p) ∧ p.length = 1 ∧ (s ++ p).toLower = s ++ p := by
  simp only [letters] at h
  split at h
  · next hc => cases h; exact ⟨rfl, rfl, rfl, hc.2.2⟩
  · cases h

theorem letters_step (h : (letters origin).Step a b) : ∃ p : String, p.length = 1 ∧ b = a ++ p := by
  obtain ⟨s, p, applied, hs, ha, rfl⟩ := h
  obtain ⟨rfl, _⟩ := letters_isState.mp hs
  obtain ⟨_, hc, _, hp, _⟩ := letters_apply ha
  exact ⟨p, hp, hc⟩

/-- The letters make a lawful network. -/
def lettersLawful (origin : Nat) : (letters origin).Lawful where
  apply_isState := by
    intro s p applied h
    obtain ⟨hj, hc, _, hp, hl⟩ := letters_apply h
    rw [hj, hc, letters_isState]
    refine ⟨rfl, fun hempty => ?_, hl⟩
    have := congrArg String.length hempty
    simp [hp] at this
  apply_cosigners := by
    intro s p applied h
    obtain ⟨hj, _, hs, _⟩ := letters_apply h
    rw [hj, hs]
    rfl
  cosigners_congr := by
    intro s s' c h h'
    rw [← (letters_isState.mp h).1, ← (letters_isState.mp h').1]
  apply_congr := by
    intro s s' c p applied applied' h h' ha ha'
    rw [(letters_apply ha).2.1, (letters_apply ha').2.1, ← (letters_isState.mp h).1,
      ← (letters_isState.mp h').1]
  rank := String.length
  rank_lt_of_ne := by
    intro a b h _
    obtain ⟨p, hp, rfl⟩ := letters_step h
    simp [hp]
  lower := fun h => by
    obtain ⟨rfl, _, hl⟩ := letters_isState.mp h
    exact hl
  moves := by
    intro a b h heq
    obtain ⟨p, hp, rfl⟩ := letters_step h
    have := congrArg String.length heq
    simp [hp] at this

theorem letters_oneLineage : (letters origin).OneLineage := by
  intro a b c h h'
  obtain ⟨p, hp, rfl⟩ := letters_step h
  obtain ⟨q, hq, heq⟩ := letters_step h'
  have hlist : a.toList ++ p.toList = b.toList ++ q.toList := by
    simpa using congrArg String.toList heq
  have hlen : p.toList.length = q.toList.length := by rw [String.length_toList, String.length_toList, hp, hq]
  exact String.toList_inj.mp (List.append_inj' hlist hlen).1

end Letters

/-- The letters, and the empty delta, which leaves the state as it is. -/
def words (origin : Nat) : Network :=
  { letters origin with
    applyDelta := fun s p =>
      if p = "" then
        ((letters origin).getStateHead s).map fun head =>
          ⟨s, head.commitment, head.nonce, letters.signers s, some "guardian"⟩
      else (letters origin).applyDelta s p }

section Words
variable {origin : Nat} {s p : String} {applied : AppliedState}

theorem words_apply (h : (words origin).applyDelta s p = some applied) :
    applied.stateJson = s ++ p ∧ applied.commitment = s ++ p ∧
      applied.cosigners = letters.signers (s ++ p) ∧ (letters origin).IsState (s ++ p) (s ++ p) := by
  simp only [words] at h
  split at h
  · next hempty =>
    obtain ⟨head, hhead, rfl⟩ := Option.map_eq_some_iff.mp h
    obtain ⟨heq, hstate⟩ := letters_isState.mp ⟨head, hhead, rfl⟩
    have happend : s ++ p = s := by rw [hempty, String.append_empty]
    rw [happend]
    exact ⟨rfl, heq, rfl, letters_isState.mpr ⟨rfl, hstate⟩⟩
  · obtain ⟨hj, hc, hs, hp, hl⟩ := letters_apply h
    refine ⟨hj, hc, hs, letters_isState.mpr ⟨rfl, fun hempty => ?_, hl⟩⟩
    have := congrArg String.length hempty
    simp [hp] at this

/-- They are coherent, and not lawful. -/
def wordsCoherent (origin : Nat) : (words origin).Coherent where
  apply_isState := by
    intro s p applied h
    obtain ⟨hj, hc, _, hstate⟩ := words_apply h
    rw [hj, hc]
    exact hstate
  apply_cosigners := by
    intro s p applied h
    obtain ⟨hj, _, hs, _⟩ := words_apply h
    rw [hj, hs]
    rfl
  cosigners_congr := (lettersLawful origin).cosigners_congr
  apply_congr := by
    intro s s' c p applied applied' h h' ha ha'
    rw [(words_apply ha).2.1, (words_apply ha').2.1, ← (letters_isState.mp h).1,
      ← (letters_isState.mp h').1]
  rank := String.length
  rank_lt_of_ne := by
    rintro a b ⟨s, p, applied, hs, ha, rfl⟩ hne
    rw [(letters_isState.mp hs).1] at hne ⊢
    rw [(words_apply ha).2.1] at hne ⊢
    have hp : p ≠ "" := fun hempty => hne (by rw [hempty, String.append_empty])
    have hpos : 0 < p.length := by
      rw [Nat.pos_iff_ne_zero, Ne, String.length_eq_zero_iff]
      exact hp
    rw [String.length_append]
    omega
  lower := (lettersLawful origin).lower

end Words
end Network

/-! ## The chain -/

/-- A commitment the account reached, the block that brought it, and the
Guardian execution attempt whose transaction it was, if one. -/
structure ChainEntry where
  commitment : Commitment
  block : Nat
  execution : Option (String × Nat)
  deriving DecidableEq, Repr

/-- The account's history: its first position, which no transaction put on
chain, and the entries after it, newest first. -/
structure Chain where
  first : Commitment
  entries : List ChainEntry
  tip : Nat
  deriving DecidableEq, Repr

inductive StateVerification where
  | match
  | absent
  | mismatch (onChain : Commitment)
  deriving DecidableEq, Repr

/-- `TransactionSearch`. -/
structure TransactionSearch where
  foundInBlock : Option Nat
  resumeFromBlock : Nat
  deriving DecidableEq, Repr

namespace Chain

/-- Every commitment the account has had, newest first. -/
def history (c : Chain) : List Commitment := c.entries.map (·.commitment) ++ [c.first]

/-- The current position. -/
def head (c : Chain) : Commitment := (c.entries.head?.map (·.commitment)).getD c.first

/-- The commitment a node at block `b` reports; `none` before the account's
first transaction. -/
def headAt (c : Chain) (b : Nat) : Option Commitment :=
  (c.entries.find? (·.block ≤ b)).map (·.commitment)

/-- `verify_commitment`, answered at block `b`. -/
def verifyCommitment (c : Chain) (expected : Commitment) (b : Nat) : StateVerification :=
  match c.headAt b with
  | none => .absent
  | some onChain => if expected = onChain then .match else .mismatch onChain

/-- `find_transaction_ending_at` of a node whose tip is `tip`: it searches the
blocks from `fromBlock` to its tip. -/
def findTransactionEndingAt (c : Chain) (target : Commitment) (fromBlock tip : Nat) :
    TransactionSearch :=
  match c.entries.find? (fun e => fromBlock ≤ e.block ∧ e.block ≤ tip ∧
      eqIgnoreAsciiCase e.commitment target) with
  | some e => ⟨some e.block, tip + 1⟩
  | none => ⟨none, max fromBlock (tip + 1)⟩

end Chain
end Guardian
