import Guardian.Service

/- `/configure` (`services/configure_account.rs`): the first configuration of an
   account, the retry of one that claimed the account and stopped before its
   state, and re-onboarding. Every step is a call of its own, so any other
   request can run between two of them. -/
namespace Guardian

open Interleaving Service

/-- A request: the state to configure, its signer set, and the signer whose
credential it carries. -/
structure ConfigureAccountParams where
  initialState : StateJson
  auth : Auth
  signer : String
  deriving DecidableEq, Repr

inductive Vouch where
  | chain
  | storedState
  | firstState
  deriving DecidableEq, Repr

namespace ConfigureAccount

/-- Whether the account was claimed and has no state yet. -/
def unfinishedClaim (existing : Option AccountMetadata) : Service Bool := do
  match existing with
  | none => return false
  | some _ =>
    match ← query .pullStateHead with
    | some (some _) => return false
    | some none => return true
    | none => return false

/-- `reject_disallowed_scheme` for every scheme not registered yet. -/
def rejectDisallowedSchemes (cfg : Config) (registered : List SignatureScheme) :
    List SignatureScheme → Service Unit
  | [] => return ()
  | scheme :: schemes => do
    if scheme ∈ registered ∨ scheme ∈ cfg.allowedSchemes then
      rejectDisallowedSchemes cfg registered schemes
    else fail (.signatureSchemeNotAllowed scheme)

/-- The checks that read nothing: the head of the submitted state. -/
def validate (net : Network) (params : ConfigureAccountParams) : Service StateHead := do
  if !net.validateConfiguration params.initialState params.auth params.signer then
    fail .authenticationFailed
  if (net.shouldUpdateAuth params.initialState params.auth).any (· != params.auth) then
    fail .invalidInput
  match net.getStateHead params.initialState with
  | some head => return head
  | none => fail .networkError

/-- `stored_head`: a row without a nonce column is decoded. -/
def storedHead (net : Network) : Service (Option StateHead) := do
  match ← orFail (query .pullStateHead) .storageError with
  | none => return none
  | some stored =>
    if stored.nonce.isSome then return some stored
    else
      let full ← pullState .storageError
      return some ⟨full.commitment, (net.getStateHead full.stateJson).bind (·.nonce)⟩

/-- Who vouches for the submitted state. -/
def vouchFor (existing : Option AccountMetadata) (storedBase : Option StateHead)
    (head : StateHead) (signer : String) : Vouch :=
  match storedBase, existing with
  | none, _ => if head.nonce = some 0 then .firstState else .chain
  | some stored, some existing =>
    if existing.releasedAt.isSome ∨ (existing.auth.signerScheme signer).isNone then .chain
    else if stored.commitment = head.commitment then .storedState
    else .chain
  | some _, none => .chain

/-- Whether the submitted state is older than the stored one. -/
def olderThan (head stored : StateHead) : Bool :=
  match stored.nonce, head.nonce with
  | some storedNonce, some submittedNonce => decide (submittedNonce < storedNonce)
  | _, _ => false

/-- `ensure_on_chain_state`. -/
def ensureOnChainState (commitment : Commitment) (newerStored : Option StateHead) :
    Service Unit := do
  match ← orFail (node (.verifyCommitment commitment .configured)) .rpcUnavailable with
  | .match => return ()
  | .absent => fail (.stateNotOnChain commitment)
  | .mismatch onChain =>
    match newerStored.filter (·.commitment = onChain) with
    | some stored => fail (.commitmentMismatch stored.commitment commitment)
    | none => fail (.stateNotOnChain commitment)

/-- `stored_state_landed`. -/
def storedStateLanded (commitment : Commitment) : Service Bool := do
  match ← orFail (node (.verifyCommitment commitment .configured)) .rpcUnavailable with
  | .match => return true
  | .absent => return false
  | .mismatch _ =>
    let search ← orFail (node (.findTransactionEndingAt commitment 0)) .rpcUnavailable
    return search.foundInBlock.isSome

/-- The vouch, and the check that an older state does not replace a stored one
the chain has reached. -/
def ensureVouched (net : Network) (params : ConfigureAccountParams)
    (existing : Option AccountMetadata) (storedBase : Option StateHead) (head : StateHead) :
    Vouch → Service Unit
  | .chain =>
    let storedCosigner := existing.any (fun m => (m.auth.signerScheme params.signer).isSome)
    ensureOnChainState head.commitment
      (storedBase.filter (fun stored => storedCosigner && olderThan head stored))
  | .firstState =>
    if net.validateFirstState params.initialState then return () else fail .invalidInput
  | .storedState => return ()

def ensureNotOlder (storedBase : Option StateHead) (head : StateHead) : Service Unit := do
  match storedBase.filter (olderThan head) with
  | none => return ()
  | some stored =>
    if ← storedStateLanded stored.commitment then
      fail (.commitmentMismatch stored.commitment head.commitment)
    return ()

/-- The state write: conditional on the base that was read, unconditional when
none was. -/
def writeState (storedBase : Option StateHead) (state : StateObject) (created : Bool) :
    Service Unit := do
  match storedBase with
  | some stored =>
    match ← orFail (write (.replaceState state stored.commitment)) .storageError with
    | .replaced => return ()
    | .stateMoved current => fail (.commitmentMismatch current state.commitment)
  | none => orFail (write (.submitState state created)) .storageError

/-- The release a vouched state clears. -/
def clearRelease (vouch : Vouch) (created : Bool) (commitment : Commitment) : Service Unit := do
  let chainVouched ← match vouch with
    | .chain => pure true
    | _ =>
      if created then pure false
      else
        let current ← orFail (query .metadataGet) .storageError
        if current.any (·.releasedAt.isSome) then
          ensureOnChainState commitment none
          pure true
        else pure false
  if !created && chainVouched then
    let _ ← orFail (write (.clearReleasedIfState commitment)) .storageError
  return ()

/-- Claim an account that has no metadata: whether this request inserted the
row. -/
def claim (auth : Auth) : Option AccountMetadata → Service Bool
  | some _ => return false
  | none => orFail (write (.createMetadata ⟨auth, false, none, none⟩)) .storageError

/-- The metadata to go on with; a request that lost the claim reads the row
that won. -/
def claimed : Option AccountMetadata → Bool → Service (Option AccountMetadata)
  | none, false => do
    match ← orFail (query .metadataGet) .storageError with
    | some claimed => return some claimed
    | none => fail .storageError
  | existing, _ => return existing

/-- The head to replace; there is none when this request claimed the account. -/
def storedBaseOf (net : Network) : Option AccountMetadata → Service (Option StateHead)
  | some _ => storedHead net
  | none => return none

/-- The signer set of an account that was there before. -/
def writeAuth (auth : Auth) : Option AccountMetadata → Service Unit
  | some m => orFail (write (.setMetadata { m with auth := auth })) .storageError
  | none => return ()

end ConfigureAccount

open ConfigureAccount in
/-- `configure_account` for a Miden account. -/
def configureAccount (net : Network) (cfg : Config) (params : ConfigureAccountParams) :
    Service Unit := do
  let existing ← orFail (query .metadataGet) .storageError
  let unfinished ← unfinishedClaim existing
  let registered := match existing with
    | some m => if unfinished then [] else m.auth.schemesInUse
    | none => []
  rejectDisallowedSchemes cfg registered params.auth.schemesInUse
  let head ← validate net params
  let created ← claim params.auth existing
  let existing ← claimed existing created
  if ← flag then fail .authenticationFailed
  let storedBase ← storedBaseOf net existing
  let vouch := vouchFor existing storedBase head params.signer
  ensureVouched net params existing storedBase head vouch
  ensureNotOlder storedBase head
  let state : StateObject := ⟨params.initialState, head.commitment, head.nonce⟩
  writeState storedBase state existing.isNone
  writeAuth params.auth existing
  clearRelease vouch created head.commitment

end Guardian
