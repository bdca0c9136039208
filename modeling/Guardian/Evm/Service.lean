import Guardian.Evm.Proposal
import Guardian.Lib.History
import Guardian.Metadata.Stores

/- The EVM proposal service (`evm/service.rs`) over the proposal writes of the two
   backends (`storage/postgres.rs`, `storage/filesystem.rs`).

   An approval reads the whole proposal, appends its signature and writes the whole
   proposal back. Nothing in the write says which proposal it was built from: on
   Postgres it is one `UPDATE` of the row, on the filesystem a test that the file
   is there and then the writing of the file. Creating a proposal that is there
   already answers the stored one, and otherwise inserts it: on Postgres a row that
   has come in between is kept, on the filesystem the file is replaced.

   Postgres keeps the status's timestamp in a column of its own, so both its writes
   refuse a status whose timestamp is not RFC 3339. An EVM proposal's is its time
   of creation in milliseconds.

   The answers of metadata, clock and chain are the environment's. The lock the
   filesystem's update holds orders updates only among themselves; runs without it
   are more runs. -/
namespace Guardian.Evm

open Interleaving MetadataStores

/-! ## Calls -/

inductive Op where
  | metadataGet (accountId : Text)
  | now
  | ensureValidatorInstalled (chainId : UInt64) (smartAccountAddress validatorAddress : Text)
  | signerSnapshot (chainId : UInt64) (smartAccountAddress validatorAddress : Text)
  | entrypointNonce (chainId : UInt64) (smartAccountAddress : Text) (nonceKey : String)
  | pullDeltaProposal (accountId commitment : Text)
  | pullAllDeltaProposals (accountId : Text)
  | deleteDeltaProposal (accountId commitment : Text)
  | submitDeltaProposal (commitment : Text) (proposal : Delta)
  | updateDeltaProposal (commitment : Text) (proposal : Delta)
  | tryExists (commitment : Text) (proposal : Delta)
  | writeProposal (commitment : Text) (proposal : Delta)

structure EvmSignerSnapshot where
  signers : List Text
  threshold : Nat
  deriving DecidableEq, Repr

abbrev Res : Op → Type
  | .metadataGet _ => Except String (Option MetadataStores.AccountMetadata)
  | .now => Int
  | .ensureValidatorInstalled _ _ _ => Except EvmError Unit
  | .signerSnapshot _ _ _ => Except EvmError EvmSignerSnapshot
  | .entrypointNonce _ _ _ => Except EvmError String
  | .pullDeltaProposal _ _ => Option Delta
  | .pullAllDeltaProposals _ => Except String (List Delta)
  | .deleteDeltaProposal _ _ => Except String Unit
  | .submitDeltaProposal _ _ => Except String Unit
  | .updateDeltaProposal _ _ => Except String Unit
  | .tryExists _ _ => Except String Bool
  | .writeProposal _ _ => Except String Unit

abbrev Handler := ExceptT EvmError (Prog Op Res)

namespace Handler

def call (o : Op) : Handler (Res o) := ExceptT.lift (Prog.op o)

/-- `map_err(..)?`. -/
def orFail {ε α : Type} (x : Except ε α) (wrap : ε → EvmError) : Handler α :=
  match x with
  | .ok a => pure a
  | .error e => throw (wrap e)

end Handler

open Handler

/-- Where proposals are stored. Postgres reads timestamps with chrono's
`DateTime::parse_from_rfc3339`. -/
inductive Backend where
  | postgres (parseFromRfc3339 : String → Option Int)
  | filesystem

/-- What a replica computes with code of its dependencies: the address a signature
of a hash recovers to, the keccak hash that is a proposal's id, and the time some
seconds after another (`none` where chrono panics); and the chains it is
configured for. -/
structure Server where
  chains : UInt64 → Bool
  recoverHashAddress : List UInt8 → Text → Except String Text
  computeProposalId : NormalizedEvmProposalInput → Except EvmError Text
  addSeconds : Int → UInt64 → Option Int

/-- `update_delta_proposal`. -/
def updateDeltaProposal (backend : Backend) (commitment : Text) (proposal : Delta) :
    Handler Unit :=
  match backend with
  | .postgres _ => do orFail (← call (.updateDeltaProposal commitment proposal)) .storageError
  | .filesystem => do
    let found ← orFail (← call (.tryExists commitment proposal)) .storageError
    if found then orFail (← call (.writeProposal commitment proposal)) .storageError
    else return ()

/-! ## Reading -/

def loadEvmMetadata (accountId : Text) : Handler MetadataStores.AccountMetadata := do
  match ← call (.metadataGet accountId) with
  | .error e => throw (.storageError ("Failed to check account: " ++ e))
  | .ok none => throw (.accountNotFound accountId)
  | .ok (some metadata) =>
    match metadata.networkConfig with
    | .evm .. => return metadata
    | .miden _ => throw (.unsupportedForNetwork "miden" "evm_proposal")

def evmNetworkParts : NetworkConfig → Except EvmError (UInt64 × Text × Text)
  | .evm chainId accountAddress validatorAddress => .ok (chainId, accountAddress.toList, validatorAddress.toList)
  | .miden _ => .error (.unsupportedForNetwork "miden" "evm_proposal")

def ensureAccountActiveMetadata (metadata : MetadataStores.AccountMetadata) : Except EvmError Unit :=
  if metadata.releasedAt.isSome then .error .accountReleased
  else if metadata.pausedAt.isSome then .error (.accountPaused metadata.pausedReason)
  else .ok ()

def normalizeSessionAddress (address : Text) : Except EvmError Text :=
  (normalizeEvmAddress address).mapError .invalidInput

def ensureSnapshotSigner (proposal : EvmProposal) (signer : Text) : Except EvmError Unit :=
  if proposal.hasSigner signer then .ok () else .error (.signerNotAuthorized signer)

def proposalIsInactive (server : Server) (proposal : EvmProposal) : Handler Bool := do
  let now ← call .now
  if proposal.expiresAt ≤ now then return true
  else if server.chains proposal.chainId then
    let current ← orFail (← call
      (.entrypointNonce proposal.chainId proposal.smartAccountAddress proposal.nonceKey)) id
    orFail (lessU256Decimal proposal.nonce current) id
  else throw (.unsupportedEvmChain proposal.chainId)

def loadActiveProposal (server : Server) (accountId proposalId : Text) :
    Handler EvmProposal := do
  let proposalId ← orFail (normalizeProposalId proposalId) id
  match ← call (.pullDeltaProposal accountId proposalId) with
  | none => throw (.proposalNotFound accountId proposalId)
  | some delta =>
    let proposal ← orFail (EvmProposal.fromDelta proposalId delta) id
    if ← proposalIsInactive server proposal then
      orFail (← call (.deleteDeltaProposal accountId proposalId)) .storageError
      throw (.proposalNotFound accountId proposalId)
    else return proposal

def getProposal (server : Server) (accountId commitment sessionAddress : Text) :
    Handler EvmProposal := do
  let proposal ← loadActiveProposal server accountId commitment
  let sessionAddress ← orFail (normalizeSessionAddress sessionAddress) id
  orFail (ensureSnapshotSigner proposal sessionAddress) id
  return proposal

def executableProposal (server : Server) (accountId commitment sessionAddress : Text) :
    Handler ExecutableEvmProposal := do
  let proposal ← getProposal server accountId commitment sessionAddress
  if proposal.isExecutable then return proposal.executable
  else throw (.insufficientSignatures proposal.threshold proposal.signatureCount)

/-- The loop of `list_proposals`. -/
def listLoop (server : Server) (accountId sessionAddress : Text) :
    List Delta → List EvmProposal → Handler (List EvmProposal)
  | [], active => return active
  | delta :: rest, active =>
    if delta.deltaPayload.kind ≠ evmProposalKind then
      listLoop server accountId sessionAddress rest active
    else do
      let proposal ← orFail (EvmProposal.fromStoredDelta delta) id
      if ← proposalIsInactive server proposal then
        orFail (← call (.deleteDeltaProposal accountId proposal.proposalId)) .storageError
        listLoop server accountId sessionAddress rest active
      else
        orFail (ensureSnapshotSigner proposal sessionAddress) id
        listLoop server accountId sessionAddress rest (active ++ [proposal])

def listProposals (server : Server) (accountId sessionAddress : Text) :
    Handler (List EvmProposal) := do
  let _ ← loadEvmMetadata accountId
  let sessionAddress ← orFail (normalizeSessionAddress sessionAddress) id
  let records ← orFail (← call (.pullAllDeltaProposals accountId)) .storageError
  let active ← listLoop server accountId sessionAddress records []
  return active.mergeSort (fun a b => decide (a.createdAt ≤ b.createdAt))

/-! ## Writing -/

structure CreateEvmProposalParams where
  accountId : Text
  userOpHash : Text
  payload : String
  nonce : String
  ttlSeconds : UInt64
  signature : Text
  sessionAddress : Text

structure ApproveEvmProposalParams where
  accountId : Text
  proposalId : Text
  signature : Text
  sessionAddress : Text

/-- `recover_hash_address`. -/
def recoverHashAddress (server : Server) (hashBytes : List UInt8) (signature : Text) :
    Except EvmError Text :=
  (server.recoverHashAddress hashBytes signature).mapError
    (fun e => .invalidProposalSignature ("recover failed: " ++ e))

/-- The checks of `create_proposal` before it looks for a stored proposal. -/
def checkedInput (server : Server) (params : CreateEvmProposalParams) :
    Handler (NormalizedEvmProposalInput × EvmSignerSnapshot) := do
  let metadata ← loadEvmMetadata params.accountId
  let (chainId, accountAddress, validatorAddress) ←
    orFail (evmNetworkParts metadata.networkConfig) id
  let sessionAddress ← orFail (normalizeSessionAddress params.sessionAddress) id
  let text ← orFail (normalizeSignature params.signature) id
  let signedAt ← call .now
  let input ← orFail (NormalizedEvmProposalInput.new chainId accountAddress validatorAddress
    params.userOpHash params.payload params.nonce sessionAddress ⟨sessionAddress, text, signedAt⟩
    params.ttlSeconds) id
  if server.chains input.chainId then
    orFail (← call (.ensureValidatorInstalled input.chainId input.smartAccountAddress
      input.validatorAddress)) id
    let snapshot ← orFail (← call (.signerSnapshot input.chainId input.smartAccountAddress
      input.validatorAddress)) id
    if snapshot.signers.any (eqIgnoreAsciiCase · input.proposer) then
      let recovered ← orFail
        (recoverHashAddress server input.hashBytes input.signature.signature) id
      if recovered = input.proposer then
        orFail (ensureAccountActiveMetadata metadata) id
        return (input, snapshot)
      else throw (.invalidProposalSignature
        "initial proposal signature signer does not match proposer")
    else throw (.signerNotAuthorized input.proposer)
  else throw (.unsupportedEvmChain input.chainId)

/-- The proposal `create_proposal` stores. -/
def newProposal (accountId proposalId : Text) (input : NormalizedEvmProposalInput)
    (snapshot : EvmSignerSnapshot) (now expiresAt : Int) : EvmProposal where
  proposalId := proposalId
  accountId := accountId
  chainId := input.chainId
  smartAccountAddress := input.smartAccountAddress
  validatorAddress := input.validatorAddress
  userOpHash := input.hash
  payload := input.payload
  nonce := input.nonce.decimal
  nonceKey := input.nonce.nonceKey
  proposer := input.proposer
  signerSnapshot := snapshot.signers
  threshold := snapshot.threshold
  signatures := [input.signature]
  createdAt := now
  expiresAt := expiresAt

/-- The end of `create_proposal`, where no active proposal was found. -/
def storeNew (server : Server) (accountId proposalId : Text) (input : NormalizedEvmProposalInput)
    (snapshot : EvmSignerSnapshot) : Handler EvmProposal := do
  let now ← call .now
  match server.addSeconds now input.ttlSeconds with
  | none => throw .panicked
  | some expiresAt =>
    let proposal := newProposal accountId proposalId input snapshot now expiresAt
    orFail (← call (.submitDeltaProposal proposalId proposal.intoDelta)) .storageError
    return proposal

def createProposal (server : Server) (params : CreateEvmProposalParams) : Handler EvmProposal := do
  let (input, snapshot) ← checkedInput server params
  let proposalId ← orFail (server.computeProposalId input) id
  match ← call (.pullDeltaProposal params.accountId proposalId) with
  | none => storeNew server params.accountId proposalId input snapshot
  | some existingDelta =>
    let existing ← orFail (EvmProposal.fromDelta proposalId existingDelta) id
    if ← proposalIsInactive server existing then
      orFail (← call (.deleteDeltaProposal params.accountId proposalId)) .storageError
      storeNew server params.accountId proposalId input snapshot
    else return existing

def approveProposal (backend : Backend) (server : Server) (params : ApproveEvmProposalParams) :
    Handler EvmProposal := do
  let proposalId ← orFail (normalizeProposalId params.proposalId) id
  let signer ← orFail (normalizeSessionAddress params.sessionAddress) id
  let proposal ← loadActiveProposal server params.accountId proposalId
  orFail (ensureSnapshotSigner proposal signer) id
  if proposal.hasSignatureFrom signer then throw (.proposalAlreadySigned signer)
  else
    let (_, hashBytes) ← orFail (normalizeHash proposal.userOpHash) id
    let signature ← orFail (normalizeSignature params.signature) id
    let recovered ← orFail (recoverHashAddress server hashBytes signature) id
    if recovered = signer then
      let metadata ← loadEvmMetadata params.accountId
      orFail (ensureAccountActiveMetadata metadata) id
      let signedAt ← call .now
      let approved : EvmProposal :=
        { proposal with signatures := proposal.signatures ++ [⟨signer, signature, signedAt⟩] }
      updateDeltaProposal backend proposalId approved.intoDelta
      return approved
    else throw (.invalidProposalSignature "approval signature signer does not match signer")

def cancelProposal (server : Server) (accountId commitment sessionAddress : Text) :
    Handler Unit := do
  let proposalId ← orFail (normalizeProposalId commitment) id
  let sessionAddress ← orFail (normalizeSessionAddress sessionAddress) id
  let proposal ← loadActiveProposal server accountId proposalId
  if eqIgnoreAsciiCase proposal.proposer sessionAddress then
    let metadata ← loadEvmMetadata accountId
    orFail (ensureAccountActiveMetadata metadata) id
    orFail (← call (.deleteDeltaProposal accountId proposalId)) .storageError
  else throw (.authorizationFailed "Only the proposal creator can cancel this EVM proposal")

/-- A request to one of the replicas. -/
inductive Request where
  | create (replica : Nat) (params : CreateEvmProposalParams)
  | approve (replica : Nat) (params : ApproveEvmProposalParams)
  | get (replica : Nat) (accountId commitment sessionAddress : Text)
  | executable (replica : Nat) (accountId commitment sessionAddress : Text)
  | list (replica : Nat) (accountId sessionAddress : Text)
  | cancel (replica : Nat) (accountId commitment sessionAddress : Text)

/-- The answer of a handler goes to its caller. -/
def answered {α : Type} (x : Handler α) : Prog Op Res Unit := do
  let _ ← x.run
  return ()

def handle (backend : Backend) (servers : Nat → Server) : Request → Prog Op Res Unit
  | .create replica params => answered (createProposal (servers replica) params)
  | .approve replica params => answered (approveProposal backend (servers replica) params)
  | .get replica accountId commitment sessionAddress =>
    answered (getProposal (servers replica) accountId commitment sessionAddress)
  | .executable replica accountId commitment sessionAddress =>
    answered (executableProposal (servers replica) accountId commitment sessionAddress)
  | .list replica accountId sessionAddress =>
    answered (listProposals (servers replica) accountId sessionAddress)
  | .cancel replica accountId commitment sessionAddress =>
    answered (cancelProposal (servers replica) accountId commitment sessionAddress)

/-! ## The machine -/

/-- The stored proposals, by account and id. -/
abbrev Store := Text × Text → Option Delta

/-- What the environment decides about a call: the answer of a part that is not
modelled, the ids an account's proposals are listed in, and whether a write failed
before it was made (`failed`) or only lost its answer (`lost`). -/
inductive Choice where
  | metadata (answer : Except String (Option MetadataStores.AccountMetadata))
  | clock (now : Int)
  | installed (answer : Except EvmError Unit)
  | signers (answer : Except EvmError EvmSignerSnapshot)
  | nonce (answer : Except EvmError String)
  | listed (commitments : List Text)
  | done
  | lost
  | failed

def Status.kind : Status → String
  | .pending _ _ _ => "pending"
  | .other kind _ => kind

def Status.timestamp : Status → String
  | .pending timestamp _ _ => timestamp
  | .other _ timestamp => timestamp

/-- `derive_status_columns`. -/
def deriveStatusColumns (parseFromRfc3339 : String → Option Int) (status : Status) :
    Except String (String × Int) :=
  if status.timestamp.isEmpty then
    .error ("DeltaStatus::" ++ status.kind ++
      " missing timestamp; refusing to write indexed status_timestamp")
  else
    match parseFromRfc3339 status.timestamp with
    | some timestamp => .ok (status.kind, timestamp)
    | none => .error ("DeltaStatus::" ++ status.kind ++ " timestamp '" ++ status.timestamp ++
        "' is not RFC-3339")

/-- The file or row of a written proposal. -/
def keyOf (commitment : Text) (proposal : Delta) : Text × Text :=
  (proposal.accountId, commitment)

/-- `submit_delta_proposal`. -/
def submitted (backend : Backend) (commitment : Text) (proposal : Delta) (w : Store) :
    Except String Unit × Store :=
  match backend with
  | .filesystem => (.ok (), Function.update w (keyOf commitment proposal) (some proposal))
  | .postgres parse =>
    match deriveStatusColumns parse proposal.status with
    | .error e => (.error e, w)
    | .ok _ =>
      match w (keyOf commitment proposal) with
      | some _ => (.ok (), w)
      | none => (.ok (), Function.update w (keyOf commitment proposal) (some proposal))

/-- The `UPDATE` of Postgres's `update_delta_proposal`; without a row it changes
nothing. -/
def updated (parse : String → Option Int) (commitment : Text) (proposal : Delta) (w : Store) :
    Except String Unit × Store :=
  match deriveStatusColumns parse proposal.status with
  | .error e => (.error e, w)
  | .ok _ =>
    match w (keyOf commitment proposal) with
    | some _ => (.ok (), Function.update w (keyOf commitment proposal) (some proposal))
    | none => (.ok (), w)

/-- How a write ends; a refusal is no failure of the connection. -/
def written : Choice → Except String Unit × Store → Store → Option (Except String Unit × Store)
  | .done, result, _ => some result
  | .lost, result, _ => some (.error "connection lost", result.2)
  | .failed, _, w => some (.error "write failed", w)
  | _, _, _ => none

def exec (backend : Backend) (_pid : Nat) : (op : Op) → Choice → Store → Option (Res op × Store)
  | .metadataGet _, .metadata answer, w => some (answer, w)
  | .now, .clock now, w => some (now, w)
  | .ensureValidatorInstalled _ _ _, .installed answer, w => some (answer, w)
  | .signerSnapshot _ _ _, .signers answer, w => some (answer, w)
  | .entrypointNonce _ _ _, .nonce answer, w => some (answer, w)
  | .pullDeltaProposal accountId commitment, .done, w => some (w (accountId, commitment), w)
  | .pullDeltaProposal _ _, .failed, w => some (none, w)
  | .pullAllDeltaProposals accountId, .listed commitments, w =>
    some (.ok (commitments.filterMap fun commitment => w (accountId, commitment)), w)
  | .pullAllDeltaProposals _, .failed, w => some (.error "read failed", w)
  | .deleteDeltaProposal accountId commitment, ch, w =>
    written ch (.ok (), Function.update w (accountId, commitment) none) w
  | .submitDeltaProposal commitment proposal, ch, w =>
    written ch (submitted backend commitment proposal w) w
  | .updateDeltaProposal commitment proposal, ch, w =>
    match backend with
    | .postgres parse => written ch (updated parse commitment proposal w) w
    | .filesystem => none
  | .tryExists commitment proposal, ch, w =>
    match backend, ch with
    | .filesystem, .done => some (.ok (w (keyOf commitment proposal)).isSome, w)
    | .filesystem, .failed => some (.error "Failed to check proposal file", w)
    | _, _ => none
  | .writeProposal commitment proposal, ch, w =>
    match backend with
    | .filesystem => written ch (submitted .filesystem commitment proposal w) w
    | .postgres _ => none
  | _, _, _ => none

/-- The environment does nothing of its own. -/
inductive Act where
  deriving DecidableEq

def machine (backend : Backend) : Machine Op Res Store Choice Act where
  exec := exec backend
  act := nofun

/-- The signatures of a stored proposal. -/
def Status.cosignerSigs : Status → List CosignerSignature
  | .pending _ _ sigs => sigs
  | .other _ _ => []

/-- The approvals of each proposal, since it was last deleted, of which the signer
was told that they were made: the update answered without an error. -/
abbrev Told := Text × Text → List CosignerSignature

/-- The signature an approval adds is the last of the proposal it writes. -/
def tell (commitment : Text) (proposal : Delta) (told : Told) : Told :=
  Function.update told (keyOf commitment proposal)
    (told (keyOf commitment proposal) ++ proposal.status.cosignerSigs.getLast?.toList)

def noteTold (backend : Backend) : Note Op Store Choice Told
  | _, .updateDeltaProposal commitment proposal, .done, w, told =>
    match backend with
    | .postgres parse =>
      match (updated parse commitment proposal w).1 with
      | .ok _ => tell commitment proposal told
      | .error _ => told
    | .filesystem => told
  | _, .tryExists commitment proposal, .done, w, told =>
    if (w (keyOf commitment proposal)).isSome then told else tell commitment proposal told
  | _, .writeProposal commitment proposal, .done, _, told => tell commitment proposal told
  | _, .deleteDeltaProposal accountId commitment, .done, _, told
  | _, .deleteDeltaProposal accountId commitment, .lost, _, told =>
    Function.update told (accountId, commitment) []
  | _, _, _, _, told => told

end Guardian.Evm
