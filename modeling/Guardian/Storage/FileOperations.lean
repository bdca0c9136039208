import Guardian.Storage.FilePayloadMap
import Guardian.Storage.Operations
import Mathlib.Data.String.Basic

/- The storage trait on the filesystem (`StorageBackend` in
   `server/src/storage/filesystem.rs`): the operations of `Storage.Operations`
   over the files of one account. The lifecycle writes and the executions are
   those of `Storage.Filesystem` and `Storage.FileExecution`, each run to its
   end; added here are the plain writes, the reads and the proposals.

   A proposal is a file named by the digits of its commitment, without `0x`
   (`utils/commitment.rs`), and is listed under that name. This backend does not
   look into payloads either (`FileStore.perform_mapPayload`), but a rewriting
   has to treat the two spellings of a commitment alike (`PayloadMap.Canonical`):
   a payload is written under one and listed under the other. -/
namespace Guardian

/-! ## Commitments -/

/-- `char::is_ascii_hexdigit`. -/
def isAsciiHexdigit (c : Char) : Bool :=
  ('0' ≤ c && c ≤ '9') || ('a' ≤ c && c ≤ 'f') || ('A' ≤ c && c ≤ 'F')

/-- A commitment without its `0x`. -/
def bareHex : List Char → List Char
  | '0' :: 'x' :: rest => rest
  | '0' :: 'X' :: rest => rest
  | text => text

/-- `normalize_commitment_hex`. -/
def normalizeCommitmentHex (commitment : String) : Option String :=
  let digits := bareHex commitment.toList
  if digits ≠ [] ∧ digits.all isAsciiHexdigit then some (String.ofList ('0' :: 'x' :: digits))
  else none

/-- `canonical_commitment`. -/
def canonicalCommitment (commitment : String) : String :=
  (normalizeCommitmentHex commitment).getD commitment

/-- The name of a proposal's file (`get_delta_proposal_path`), without `.json`. -/
def proposalFile (commitment : Commitment) : Option String :=
  (normalizeCommitmentHex commitment).map (fun normalized =>
    String.ofList (bareHex normalized.toList))

/-- A hex commitment has one canonical form, however its `0x` is spelled. -/
theorem canonicalCommitment_digits {digits : List Char} (hne : digits ≠ [])
    (hhex : digits.all isAsciiHexdigit = true) :
    canonicalCommitment (String.ofList digits) = String.ofList ('0' :: 'x' :: digits) ∧
      canonicalCommitment (String.ofList ('0' :: 'x' :: digits)) =
        String.ofList ('0' :: 'x' :: digits) := by
  have hbare : bareHex digits = digits := by
    unfold bareHex
    split
    · simp [isAsciiHexdigit] at hhex
    · simp [isAsciiHexdigit] at hhex
    · rfl
  constructor
  · simp [canonicalCommitment, normalizeCommitmentHex, hbare, hne, hhex]
  · simp [canonicalCommitment, normalizeCommitmentHex, bareHex, hne, hhex]

/-- A commitment that names a file, by its digits. -/
theorem digits_of_proposalFile {commitment file : String} (h : proposalFile commitment = some file) :
    ∃ digits : List Char, digits ≠ [] ∧ digits.all isAsciiHexdigit = true ∧
      file = String.ofList digits ∧ canonicalCommitment commitment =
        String.ofList ('0' :: 'x' :: digits) := by
  obtain ⟨normalized, hnormalized, rfl⟩ := Option.map_eq_some_iff.mp h
  unfold normalizeCommitmentHex at hnormalized
  dsimp only at hnormalized
  split at hnormalized
  · next hhex =>
    refine ⟨bareHex commitment.toList, hhex.1, hhex.2, ?_, ?_⟩
    · rw [← Option.some.inj hnormalized, String.toList_ofList, bareHex]
    · rw [canonicalCommitment, normalizeCommitmentHex, if_pos hhex]
      rfl
  · cases hnormalized

/-- A proposal is written under its commitment and listed under its file's name. -/
theorem canonicalCommitment_proposalFile {commitment file : String}
    (h : proposalFile commitment = some file) :
    canonicalCommitment file = canonicalCommitment commitment := by
  obtain ⟨digits, hne, hhex, rfl, hcanonical⟩ := digits_of_proposalFile h
  rw [hcanonical, (canonicalCommitment_digits hne hhex).1]

/-- Proposals are rewritten by the canonical form of their commitment. -/
def PayloadMap.Canonical (g : PayloadMap) : Prop :=
  ∀ commitment, g.proposal (canonicalCommitment commitment) = g.proposal commitment

/-! ## Pending proposals -/

/-- `sort_by_key(|record| record.proposal.nonce)`, over the `u64`s. -/
def nonceBefore (a b : ProposalRecord) : Prop := a.proposal.nonce.toNat ≤ b.proposal.nonce.toNat

instance nonceBeforeDecidable : DecidableRel nonceBefore := fun a b =>
  inferInstanceAs (Decidable (a.proposal.nonce.toNat ≤ b.proposal.nonce.toNat))

/-- The pending ones of an account's proposals, as the trait's default
`pull_pending_proposals` lists them. -/
def pendingByNonce (records : List ProposalRecord) : List ProposalRecord :=
  (records.filter (·.proposal.status.isPending)).insertionSort nonceBefore

theorem pendingByNonce_mapPayload (g : PayloadMap) (records : List ProposalRecord) :
    pendingByNonce (records.map (·.mapPayload g)) = (pendingByNonce records).map (·.mapPayload g) := by
  unfold pendingByNonce
  rw [Table.filter_mapped (f := ProposalRecord.mapPayload g) (fun _ => rfl),
    Table.insertionSort_mapped (f := ProposalRecord.mapPayload g) (fun _ _ => Iff.rfl)]

/-! ## The files of one account -/

/-- The files with the proposals, each under the name of its file, and the file of
request sizes. `files.proposals` is filled only for the operations that look for a
proposal (`view`). -/
structure FileStore where
  files : Files
  proposals : Table (fun r : ProposalRecord => r.commitment)
  requestSizes : String → Option Nat

namespace FileStore

def empty : FileStore where
  files := ⟨.empty, [], none, none, [], none, []⟩
  proposals := .empty
  requestSizes := fun _ => none

/-! ## Proposals -/

/-- `write_proposal_holding_lock`. -/
def writeProposal (s : FileStore) (file : String) (proposal : DeltaObject) : FileStore :=
  { s with proposals := (s.proposals.delete (·.commitment == file)).insert ⟨file, proposal⟩ }

/-- A proposal's file is removed. -/
def removeProposal (s : FileStore) (file : String) : FileStore :=
  { s with proposals := s.proposals.delete (·.commitment == file) }

/-- The records `admit_delta_proposal` counts. -/
def viableProposals (s : FileStore) (a : ProposalAdmission) : List ProposalRecord :=
  s.proposals.select (fun r => r.proposal.status.isPending &&
    r.proposal.prevCommitment == a.proposal.prevCommitment &&
    a.queueTailNonce.all (fun tail => decide (tail.toNat < r.proposal.nonce.toNat)))

/-- `u64::saturating_add`. -/
def saturatingAdd (a b : Nat) : Nat := min (a + b) (2^64 - 1)

/-- `admit_delta_proposal`. -/
def admitDeltaProposal (s : FileStore) (a : ProposalAdmission) : Option (ProposalWrite × FileStore) :=
  match proposalFile a.commitment with
  | none => none
  | some file =>
    if (s.proposals.find? file).isSome then some (.alreadyStored, s)
    else if a.maxViableProposals ≤ (s.viableProposals a).length then
      some (.pendingLimit a.maxViableProposals, s)
    else
      let used := ((s.viableProposals a).map (fun r => (s.requestSizes r.commitment).getD 0)).foldl
        saturatingAdd 0
      if a.maxAccountRequestBytes < saturatingAdd used a.requestBytes then
        some (.accountRequestBytesLimit a.maxAccountRequestBytes used, s)
      else
        let live := fun name => (s.proposals.find? name).isSome
        let sizes := fun name =>
          if name = file then some a.requestBytes
          else if live name then s.requestSizes name else none
        some (.stored, { s with requestSizes := sizes }.writeProposal file a.proposal)

/-- `update_delta_proposal`: a proposal that is gone stays gone. -/
def updateDeltaProposal (s : FileStore) (file : String) (proposal : DeltaObject) : FileStore :=
  if (s.proposals.find? file).isSome then s.writeProposal file proposal else s

/-- `update_delta_proposal_if_status`. -/
def updateDeltaProposalIfStatus (s : FileStore) (file : String) (proposal : DeltaObject)
    (expected : DeltaStatus) : Bool × FileStore :=
  if (s.proposals.find? file).any (·.proposal.status == expected) then
    (true, s.writeProposal file proposal)
  else (false, s)

/-- `pull_pending_proposals`. -/
def pendingProposals (s : FileStore) : List ProposalRecord :=
  pendingByNonce s.proposals.rows

/-! ## States and deltas -/

/-- `backfill_state_nonce`. -/
def backfillStateNonce (commitment : Commitment) (nonce : Nat) (files : Files) : Bool × Files :=
  match files.state with
  | none => (false, files)
  | some state =>
    if state.commitment = commitment ∧ state.nonce = none then
      (true, files.writeState { state with nonce := some nonce })
    else (false, files)

/-- `pull_deltas_after`. -/
def deltasAfter (fromNonce : Nonce) (files : Files) : List DeltaObject :=
  files.deltas.select (fun d => decide (fromNonce.toNat ≤ d.nonce.toNat))

/-- `pull_canonical_deltas_after`. -/
def canonicalDeltasAfter (fromNonce : Nonce) (files : Files) : List DeltaObject :=
  files.deltas.select (fun d => decide (fromNonce.toNat ≤ d.nonce.toNat) && d.status.isCanonical)

/-- `pull_recoverable_deltas`. -/
def recoverableDeltas (since : Time) (files : Files) : List DeltaObject :=
  files.deltas.select (fun d => d.status.isRetained ||
    (d.status.isClientAbandoned && decide (since ≤ d.status.timestamp)))

/-- The order of `read_archived`. -/
def archivedBefore (a b : SupersededDelta) : Prop :=
  a.delta.nonce.toNat < b.delta.nonce.toNat ∨
    (a.delta.nonce.toNat = b.delta.nonce.toNat ∧ a.supersededAt ≤ b.supersededAt)

instance archivedBeforeDecidable : DecidableRel archivedBefore := fun a b =>
  inferInstanceAs (Decidable (a.delta.nonce.toNat < b.delta.nonce.toNat ∨
    (a.delta.nonce.toNat = b.delta.nonce.toNat ∧ a.supersededAt ≤ b.supersededAt)))

/-- `pull_superseded_deltas`. -/
def supersededDeltas (since : Time) (files : Files) : List SupersededDelta :=
  (files.superseded.insertionSort archivedBefore).filter (fun s => decide (since ≤ s.supersededAt))

/-! ## Operations -/

/-- The files where an operation looks for a proposal. -/
def view (s : FileStore) (proposalId : String) : Files :=
  { s.files with proposals :=
      if ((proposalFile proposalId).bind s.proposals.find?).isSome then [proposalId] else [] }

/-- What an operation over the files answers and leaves; an error writes nothing. -/
def carry {α : Type} (s : FileStore) (answer : α → StorageAnswer) :
    Option (α × Files) → StorageAnswer × FileStore
  | none => (.failed, s)
  | some (a, files) => (answer a, { s with files := files })

/-- The same for an operation that looked for a proposal: where it deleted it, the
file is removed. -/
def settle {α : Type} (s : FileStore) (proposalId : String) (answer : α → StorageAnswer) :
    Option (α × Files) → StorageAnswer × FileStore
  | none => (.failed, s)
  | some (a, files) =>
    let left : FileStore := { s with files := { files with proposals := [] } }
    (answer a, if proposalId ∈ files.proposals then left
      else ((proposalFile proposalId).map left.removeProposal).getD left)

/-- An operation on the proposal under a commitment; one that names no file fails. -/
def onFile (s : FileStore) (commitment : Commitment)
    (f : String → StorageAnswer × FileStore) : StorageAnswer × FileStore :=
  match proposalFile commitment with
  | none => (.failed, s)
  | some file => f file

/-- One operation. -/
def perform (s : FileStore) : StorageOp → StorageAnswer × FileStore
  | .submitState state => (.done, { s with files := s.files.writeState state })
  | .replaceState state expected =>
    s.carry .replaced ((s.files.replaceState state expected).map (·.complete s.files))
  | .backfillStateNonce commitment nonce =>
    s.carry .flag (some (backfillStateNonce commitment nonce s.files))
  | .submitDelta delta => (.done, { s with files := s.files.writeDelta delta })
  | .deleteDelta nonce => (.done, { s with files := s.files.deleteDelta nonce })
  | .updateDeltaStatus nonce status =>
    match s.files.pullDelta nonce with
    | none => (.failed, s)
    | some delta => (.done, { s with files := s.files.writeDelta { delta with status := status } })
  | .submitCandidate delta now policy =>
    s.carry .submission ((s.files.submitCandidate delta now policy).map (·.complete s.files))
  | .requestCandidateAbandon nonce new now =>
    s.carry .abandon (some ((s.files.requestCandidateAbandon nonce new now).complete s.files))
  | .promoteCandidate _ p =>
    s.carry .promotion ((s.files.promoteCandidate p).map (·.complete s.files))
  | .discardCandidate _ nonce kind =>
    s.carry .canonical (some ((s.files.discardCandidate nonce kind).complete s.files))
  | .updateCandidateStatus _ nonce status =>
    s.carry .canonical (some ((s.files.updateCandidateStatus nonce status).complete s.files))
  | .pruneSupersededDeltas before =>
    (.count (s.files.superseded.countP (fun a => decide (a.supersededAt < before))),
      { s with files := { s.files with
        superseded := s.files.superseded.filter (fun a => !decide (a.supersededAt < before)) } })
  | .submitDeltaProposal commitment proposal =>
    s.onFile commitment (fun file => (.done, s.writeProposal file proposal))
  | .admitDeltaProposal a =>
    match s.admitDeltaProposal a with
    | none => (.failed, s)
    | some (write, s') => (.admittedProposal write, s')
  | .updateDeltaProposal commitment proposal =>
    s.onFile commitment (fun file => (.done, s.updateDeltaProposal file proposal))
  | .updateDeltaProposalIfStatus commitment proposal expected =>
    s.onFile commitment (fun file =>
      Prod.map .flag id (s.updateDeltaProposalIfStatus file proposal expected))
  | .deleteDeltaProposal commitment =>
    s.onFile commitment (fun file => (.done, s.removeProposal file))
  | .createExecutionReservation leaseFits _ proposalId fence leaseExpiresAt now =>
    let files := s.view proposalId
    let created := (files.createExecutionReservation leaseFits proposalId fence leaseExpiresAt
      now).map (·.complete files)
    -- `pull_delta_proposal` of an id that names no file is an error
    s.settle proposalId .reservation (created.filter (fun r =>
      r.1 != .proposalGone || (proposalFile proposalId).isSome))
  | .renewExecutionReservation _ fence leaseExpiresAt phase now =>
    s.carry .renewal (some ((s.files.renewExecutionReservation fence leaseExpiresAt phase
      now).complete s.files))
  | .claimExecutionReservation leaseFits _ expected claimant leaseExpiresAt now =>
    s.carry .claim ((s.files.claimExecutionReservation leaseFits expected claimant leaseExpiresAt
      now).map (·.complete s.files))
  | .admitExecutionCandidate _ a =>
    s.carry .admission ((s.files.admitExecutionCandidate a).map (·.complete s.files))
  | .settlePromotedExecution _ fence now =>
    s.carry .settlement ((s.files.settlePromotedExecution fence now).map (·.complete s.files))
  | .resolveExecution _ resolution crossed =>
    let files := s.view resolution.proposalId
    s.settle resolution.proposalId .resolution (some ((if crossed then
      files.resolveExecution resolution else files.failExecution resolution).complete files))
  | .pullState => (.state s.files.state, s)
  | .pullStateHead => (.head (s.files.state.map (fun st => ⟨st.commitment, st.nonce⟩)), s)
  | .pullDelta nonce => (.delta (s.files.pullDelta nonce), s)
  | .pullDeltasAfter fromNonce => (.deltas (deltasAfter fromNonce s.files), s)
  | .pullCanonicalDeltasAfter fromNonce => (.deltas (canonicalDeltasAfter fromNonce s.files), s)
  | .hasPendingCandidate => (.flag !s.files.candidates.isEmpty, s)
  | .pullCandidateDeltas => (.deltas s.files.candidates, s)
  | .pullRecoverableDeltas since => (.deltas (recoverableDeltas since s.files), s)
  | .pullSupersededDeltas since => (.superseded (supersededDeltas since s.files), s)
  | .pullDeltaProposal commitment =>
    s.onFile commitment (fun file =>
      (.proposal commitment ((s.proposals.find? file).map (·.proposal)), s))
  | .pullAllDeltaProposals => (.proposals s.proposals.rows, s)
  | .pullPendingProposals => (.proposals s.pendingProposals, s)
  | .loadActiveExecution => (.execution s.files.activeExecution, s)
  | .metadata change =>
    (.done, { s with files := { s.files with metadata := change s.files.metadata } })

/-! ## Payloads -/

def mapPayload (g : PayloadMap) (s : FileStore) : FileStore :=
  { s with
    files := s.files.mapPayload g
    proposals := s.proposals.map (·.mapPayload g) (fun _ => rfl) }

section Natural
variable (g : PayloadMap) (s : FileStore)

@[simp] theorem files_mapPayload : (s.mapPayload g).files = s.files.mapPayload g := rfl

@[simp] theorem requestSizes_mapPayload : (s.mapPayload g).requestSizes = s.requestSizes := rfl

@[simp] theorem findProposal_mapPayload (file : String) :
    (s.mapPayload g).proposals.find? file = (s.proposals.find? file).map (·.mapPayload g) :=
  Table.find?_map (f := ProposalRecord.mapPayload g) (fun _ => rfl) s.proposals file

@[simp] theorem hasProposal_mapPayload (file : String) :
    ((s.mapPayload g).proposals.find? file).isSome = (s.proposals.find? file).isSome := by
  rw [findProposal_mapPayload, Option.isSome_map]

variable {g} in
/-- Rewritten under its file's name or under its commitment, a payload is the same. -/
theorem mapProposal_file (hg : g.Canonical) {commitment : Commitment} {file : String}
    (h : proposalFile commitment = some file) (proposal : DeltaObject) :
    proposal.mapProposal g file = proposal.mapProposal g commitment := by
  unfold DeltaObject.mapProposal
  rw [← hg file, ← hg commitment, canonicalCommitment_proposalFile h]

theorem removeProposal_mapPayload (file : String) :
    (s.mapPayload g).removeProposal file = (s.removeProposal file).mapPayload g := by
  have hrows := Table.delete_map (f := ProposalRecord.mapPayload g) (fun _ => rfl) s.proposals
    (p := (·.commitment == file)) fun _ => rfl
  simp only [removeProposal, mapPayload, hrows]

theorem writeProposal_mapPayload (file : String) (proposal : DeltaObject) :
    (s.mapPayload g).writeProposal file (proposal.mapProposal g file) =
      (s.writeProposal file proposal).mapPayload g := by
  have hdeleted := Table.delete_map (f := ProposalRecord.mapPayload g) (fun _ => rfl) s.proposals
    (p := (·.commitment == file)) fun _ => rfl
  have hrows := Table.insert_map (f := ProposalRecord.mapPayload g) (fun _ => rfl)
    (s.proposals.delete (·.commitment == file)) ⟨file, proposal⟩
  have hrecord : (⟨file, proposal.mapProposal g file⟩ : ProposalRecord) =
      ProposalRecord.mapPayload g ⟨file, proposal⟩ := rfl
  simp only [writeProposal, mapPayload, hdeleted, hrecord, hrows]

theorem viableProposals_mapPayload (a : ProposalAdmission) :
    (s.mapPayload g).viableProposals { a with proposal := a.proposal.mapProposal g a.commitment } =
      (s.viableProposals a).map (·.mapPayload g) :=
  Table.select_map (f := ProposalRecord.mapPayload g) (fun _ => rfl) s.proposals fun _ => rfl

variable {g} in
theorem admitDeltaProposal_mapPayload (hg : g.Canonical) (a : ProposalAdmission) :
    (s.mapPayload g).admitDeltaProposal
        { a with proposal := a.proposal.mapProposal g a.commitment } =
      (s.admitDeltaProposal a).map (Prod.map id (·.mapPayload g)) := by
  have hviable := s.viableProposals_mapPayload g a
  have hsizes : ((s.viableProposals a).map (·.mapPayload g)).map
      (fun r => (s.requestSizes r.commitment).getD 0) =
      (s.viableProposals a).map (fun r => (s.requestSizes r.commitment).getD 0) := by
    rw [List.map_map]
    rfl
  unfold admitDeltaProposal
  cases hfile : proposalFile a.commitment with
  | none => rfl
  | some file =>
    have hwrite : ∀ sizes : String → Option Nat,
        writeProposal { s.mapPayload g with requestSizes := sizes } file
          (a.proposal.mapProposal g a.commitment) =
        (writeProposal { s with requestSizes := sizes } file a.proposal).mapPayload g := by
      intro sizes
      rw [← mapProposal_file hg hfile]
      exact writeProposal_mapPayload g { s with requestSizes := sizes } file a.proposal
    simp only [hasProposal_mapPayload, requestSizes_mapPayload, hviable, hsizes, List.length_map,
      hwrite]
    simp only [apply_ite (Option.map _)]
    rfl

variable {g} in
theorem updateDeltaProposal_mapPayload {commitment : Commitment} {file : String}
    (hg : g.Canonical) (hfile : proposalFile commitment = some file) (proposal : DeltaObject) :
    (s.mapPayload g).updateDeltaProposal file (proposal.mapProposal g commitment) =
      (s.updateDeltaProposal file proposal).mapPayload g := by
  unfold updateDeltaProposal
  rw [hasProposal_mapPayload, ← mapProposal_file hg hfile, writeProposal_mapPayload]
  split <;> rfl

variable {g} in
theorem updateDeltaProposalIfStatus_mapPayload {commitment : Commitment} {file : String}
    (hg : g.Canonical) (hfile : proposalFile commitment = some file) (proposal : DeltaObject)
    (expected : DeltaStatus) :
    (s.mapPayload g).updateDeltaProposalIfStatus file (proposal.mapProposal g commitment) expected =
      Prod.map id (·.mapPayload g) (s.updateDeltaProposalIfStatus file proposal expected) := by
  have hstatus : ((s.proposals.find? file).map (·.mapPayload g)).any
      (·.proposal.status == expected) =
      (s.proposals.find? file).any (·.proposal.status == expected) := by
    cases s.proposals.find? file <;> rfl
  unfold updateDeltaProposalIfStatus
  rw [findProposal_mapPayload, hstatus, ← mapProposal_file hg hfile, writeProposal_mapPayload]
  split <;> rfl

theorem backfillStateNonce_mapPayload (commitment : Commitment) (nonce : Nat) (files : Files) :
    backfillStateNonce commitment nonce (files.mapPayload g) =
      Prod.map id (·.mapPayload g) (backfillStateNonce commitment nonce files) := by
  unfold backfillStateNonce
  rw [Files.state_mapPayload]
  cases files.state with
  | none => rfl
  | some st =>
    by_cases hmatch : st.commitment = commitment ∧ st.nonce = none
    · simp only [Option.map_some, StateObject.mapPayload, hmatch, and_self, if_true]
      rfl
    · simp only [Option.map_some, StateObject.mapPayload, hmatch, if_false]
      rfl

/-- A read that selects deltas by what is not a payload. -/
theorem selectDeltas_mapPayload {p : DeltaObject → Bool} (hp : ∀ d, p (d.mapPayload g) = p d)
    (files : Files) : (files.mapPayload g).deltas.select p =
      (files.deltas.select p).map (·.mapPayload g) :=
  Table.select_map (f := DeltaObject.mapPayload g) (fun _ => rfl) files.deltas hp

theorem supersededDeltas_mapPayload (since : Time) (files : Files) :
    supersededDeltas since (files.mapPayload g) =
      (supersededDeltas since files).map (·.mapPayload g) := by
  unfold supersededDeltas
  rw [Files.superseded_mapPayload,
    Table.insertionSort_mapped (f := SupersededDelta.mapPayload g) (fun _ _ => Iff.rfl),
    Table.filter_mapped (f := SupersededDelta.mapPayload g) (fun _ => rfl)]

theorem view_mapPayload (proposalId : String) :
    (s.mapPayload g).view proposalId = (s.view proposalId).mapPayload g := by
  have hstored : ((proposalFile proposalId).bind (s.mapPayload g).proposals.find?).isSome =
      ((proposalFile proposalId).bind s.proposals.find?).isSome := by
    cases proposalFile proposalId with
    | none => rfl
    | some file => exact s.hasProposal_mapPayload g file
  unfold view
  rw [hstored]
  rfl

theorem carry_mapPayload {α : Type} {answer : α → StorageAnswer}
    (hanswer : ∀ a, (answer a).mapPayload g = answer a) {r r' : Option (α × Files)}
    (h : r' = r.map (Prod.map id (·.mapPayload g))) :
    (s.mapPayload g).carry answer r' =
      Prod.map (·.mapPayload g) (·.mapPayload g) (s.carry answer r) := by
  subst h
  cases r with
  | none => rfl
  | some r => exact Prod.ext (hanswer r.1).symm rfl

theorem carry_some_mapPayload {α : Type} {answer : α → StorageAnswer}
    (hanswer : ∀ a, (answer a).mapPayload g = answer a) {x x' : α × Files}
    (h : x' = Prod.map id (·.mapPayload g) x) :
    (s.mapPayload g).carry answer (some x') =
      Prod.map (·.mapPayload g) (·.mapPayload g) (s.carry answer (some x)) := by
  subst h
  exact s.carry_mapPayload g hanswer rfl

theorem settle_mapPayload {α : Type} (proposalId : String) {answer : α → StorageAnswer}
    (hanswer : ∀ a, (answer a).mapPayload g = answer a) (r : Option (α × Files)) :
    (s.mapPayload g).settle proposalId answer (r.map (Prod.map id (·.mapPayload g))) =
      Prod.map (·.mapPayload g) (·.mapPayload g) (s.settle proposalId answer r) := by
  cases r with
  | none => rfl
  | some r =>
    refine Prod.ext (hanswer r.1).symm ?_
    have hremoved := removeProposal_mapPayload g { s with files := { r.2 with proposals := [] } }
    show (if proposalId ∈ r.2.proposals then _ else _) =
      FileStore.mapPayload g (if proposalId ∈ r.2.proposals then _ else _)
    split
    · rfl
    · cases proposalFile proposalId with
      | none => rfl
      | some file => exact hremoved file

theorem onFile_mapPayload {commitment : Commitment}
    {f' f : String → StorageAnswer × FileStore}
    (h : ∀ file, proposalFile commitment = some file →
      f' file = Prod.map (·.mapPayload g) (·.mapPayload g) (f file)) :
    (s.mapPayload g).onFile commitment f' =
      Prod.map (·.mapPayload g) (·.mapPayload g) (s.onFile commitment f) := by
  unfold onFile
  cases hfile : proposalFile commitment with
  | none => rfl
  | some file => exact h file hfile

/-- The answer of a read. -/
theorem read_mapPayload {a b : StorageAnswer} (h : a = b.mapPayload g) :
    (a, s.mapPayload g) = Prod.map (·.mapPayload g) (·.mapPayload g) (b, s) := by
  subst h
  rfl

/-- What an operation writes into the files. -/
theorem write_mapPayload {files files' : Files} (h : files = files'.mapPayload g) :
    (StorageAnswer.done, { s.mapPayload g with files := files }) =
      Prod.map (·.mapPayload g) (·.mapPayload g)
        (StorageAnswer.done, { s with files := files' }) := by
  subst h
  rfl

variable {g} in
/-- Operations do not look into payloads. -/
theorem perform_mapPayload (hg : g.Canonical) (op : StorageOp) :
    (s.mapPayload g).perform (op.mapPayload g) =
      Prod.map (·.mapPayload g) (·.mapPayload g) (s.perform op) := by
  cases op with
  | submitState state => rfl
  | replaceState state expected =>
    exact s.carry_mapPayload g (fun _ => rfl)
      (Files.replaceState_mapPayload g s.files state expected)
  | backfillStateNonce commitment nonce =>
    exact s.carry_some_mapPayload g (fun _ => rfl)
      (backfillStateNonce_mapPayload g commitment nonce s.files)
  | submitDelta delta => exact s.write_mapPayload g (s.files.writeDelta_mapPayload g delta)
  | deleteDelta nonce => exact s.write_mapPayload g (s.files.deleteDelta_mapPayload g nonce)
  | updateDeltaStatus nonce status =>
    simp only [perform, StorageOp.mapPayload, files_mapPayload, Files.pullDelta_mapPayload]
    cases s.files.pullDelta nonce with
    | none => rfl
    | some delta =>
      exact s.write_mapPayload g (s.files.writeDelta_mapPayload g { delta with status := status })
  | submitCandidate delta now policy =>
    exact s.carry_mapPayload g (fun _ => rfl)
      (Files.submitCandidate_mapPayload g s.files delta now policy)
  | requestCandidateAbandon nonce new now =>
    exact s.carry_some_mapPayload g (fun _ => rfl)
      (Files.requestCandidateAbandon_mapPayload g s.files nonce new now)
  | promoteCandidate leaseCurrent p =>
    exact s.carry_mapPayload g (fun _ => rfl)
      (Files.promoteCandidate_mapPayload g s.files p)
  | discardCandidate leaseCurrent nonce kind =>
    exact s.carry_some_mapPayload g (fun _ => rfl)
      (Files.discardCandidate_mapPayload g s.files nonce kind)
  | updateCandidateStatus leaseCurrent nonce status =>
    exact s.carry_some_mapPayload g (fun _ => rfl)
      (Files.updateCandidateStatus_mapPayload g s.files nonce status)
  | pruneSupersededDeltas before =>
    have hpruned : (s.files.superseded.map (·.mapPayload g)).countP
        (fun a => decide (a.supersededAt < before)) =
        s.files.superseded.countP (fun a => decide (a.supersededAt < before)) := by
      rw [List.countP_map]
      rfl
    have hkept := Table.filter_mapped (f := SupersededDelta.mapPayload g)
      (p := fun a => !decide (a.supersededAt < before)) (fun _ => rfl) s.files.superseded
    simp only [perform, StorageOp.mapPayload, files_mapPayload, Files.superseded_mapPayload,
      hpruned, hkept]
    rfl
  | submitDeltaProposal commitment proposal =>
    refine s.onFile_mapPayload g fun file hfile => ?_
    rw [← mapProposal_file hg hfile, writeProposal_mapPayload]
    rfl
  | admitDeltaProposal a =>
    simp only [perform, StorageOp.mapPayload, s.admitDeltaProposal_mapPayload hg a]
    cases s.admitDeltaProposal a with
    | none => rfl
    | some r => rfl
  | updateDeltaProposal commitment proposal =>
    refine s.onFile_mapPayload g fun file hfile => ?_
    rw [s.updateDeltaProposal_mapPayload hg hfile]
    rfl
  | updateDeltaProposalIfStatus commitment proposal expected =>
    refine s.onFile_mapPayload g fun file hfile => ?_
    rw [s.updateDeltaProposalIfStatus_mapPayload hg hfile]
    rfl
  | deleteDeltaProposal commitment =>
    refine s.onFile_mapPayload g fun file _ => ?_
    rw [removeProposal_mapPayload]
    rfl
  | createExecutionReservation leaseFits leaseCurrent proposalId fence leaseExpiresAt now =>
    have hview := s.view_mapPayload g proposalId
    have hcreated := Files.createExecutionReservation_mapPayload g (s.view proposalId) leaseFits
      proposalId fence leaseExpiresAt now
    simp only [perform, StorageOp.mapPayload, hview, hcreated, Option.filter_map]
    exact s.settle_mapPayload g proposalId (fun _ => rfl) _
  | renewExecutionReservation leaseCurrent fence leaseExpiresAt phase now =>
    exact s.carry_some_mapPayload g (fun _ => rfl)
      (Files.renewExecutionReservation_mapPayload g s.files fence leaseExpiresAt phase now)
  | claimExecutionReservation leaseFits leaseCurrent expected claimant leaseExpiresAt now =>
    exact s.carry_mapPayload g (fun _ => rfl)
      (Files.claimExecutionReservation_mapPayload g s.files leaseFits expected claimant
        leaseExpiresAt now)
  | admitExecutionCandidate leaseCurrent a =>
    exact s.carry_mapPayload g (fun _ => rfl)
      (Files.admitExecutionCandidate_mapPayload g s.files a)
  | settlePromotedExecution leaseCurrent fence now =>
    exact s.carry_mapPayload g (fun _ => rfl)
      (Files.settlePromotedExecution_mapPayload g s.files fence now)
  | resolveExecution leaseCurrent resolution crossed =>
    have hview := s.view_mapPayload g resolution.proposalId
    have hresolved : ((if crossed then ((s.view resolution.proposalId).mapPayload
        g).resolveExecution resolution else ((s.view resolution.proposalId).mapPayload
        g).failExecution resolution).complete ((s.view resolution.proposalId).mapPayload g)) =
        Prod.map id (·.mapPayload g) ((if crossed then (s.view resolution.proposalId).resolveExecution
          resolution else (s.view resolution.proposalId).failExecution resolution).complete
          (s.view resolution.proposalId)) := by
      cases crossed with
      | true => exact Files.resolveExecution_mapPayload g _ resolution
      | false => exact Files.failExecution_mapPayload g _ resolution
    simp only [perform, StorageOp.mapPayload, hview, hresolved]
    exact s.settle_mapPayload g resolution.proposalId (fun _ => rfl) (some _)
  | pullState => rfl
  | pullStateHead =>
    refine s.read_mapPayload g (congrArg StorageAnswer.head ?_)
    show ((s.files.state.map (·.mapPayload g)).map _) = _
    rw [Option.map_map]
    rfl
  | pullDelta nonce =>
    exact s.read_mapPayload g (congrArg StorageAnswer.delta (s.files.pullDelta_mapPayload g nonce))
  | pullDeltasAfter fromNonce =>
    exact s.read_mapPayload g (congrArg StorageAnswer.deltas
      (selectDeltas_mapPayload g (fun _ => rfl) s.files))
  | pullCanonicalDeltasAfter fromNonce =>
    exact s.read_mapPayload g (congrArg StorageAnswer.deltas
      (selectDeltas_mapPayload g (fun _ => rfl) s.files))
  | hasPendingCandidate =>
    exact s.read_mapPayload g (congrArg (fun empty => StorageAnswer.flag !empty)
      (s.files.candidates_isEmpty_mapPayload g))
  | pullCandidateDeltas =>
    exact s.read_mapPayload g (congrArg StorageAnswer.deltas (s.files.candidates_mapPayload g))
  | pullRecoverableDeltas since =>
    exact s.read_mapPayload g (congrArg StorageAnswer.deltas
      (selectDeltas_mapPayload g (fun _ => rfl) s.files))
  | pullSupersededDeltas since =>
    exact s.read_mapPayload g (congrArg StorageAnswer.superseded
      (supersededDeltas_mapPayload g since s.files))
  | pullDeltaProposal commitment =>
    refine s.onFile_mapPayload g fun file hfile => ?_
    refine s.read_mapPayload g (congrArg (StorageAnswer.proposal commitment) ?_)
    rw [findProposal_mapPayload]
    cases hfound : s.proposals.find? file with
    | none => rfl
    | some r =>
      -- the record is under the file's name
      have hname : r.commitment = file := (Table.find?_eq_some.mp hfound).2
      simp only [Option.map_some, ProposalRecord.mapPayload_proposal, hname,
        mapProposal_file hg hfile]
  | pullAllDeltaProposals => rfl
  | pullPendingProposals =>
    exact s.read_mapPayload g (congrArg StorageAnswer.proposals
      (pendingByNonce_mapPayload g s.proposals.rows))
  | loadActiveExecution => rfl
  | metadata change => rfl

end Natural

end FileStore
end Guardian
