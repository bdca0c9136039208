import Guardian.Lib.History
import Guardian.Multisig.Account
import Guardian.Storage.Operations

/- Pushing a proposal within an account's limits
   (`services/push_delta_proposal.rs`, and `admit_delta_proposal` of
   `storage/postgres.rs` and `storage/filesystem.rs`).

   A push reads the candidate queue, counts the pending proposals on the queue's
   tail and is refused if they are too many; then storage counts again and inserts,
   on Postgres in a transaction that holds the account's metadata row, on the
   filesystem under the lock of the delta writes. Postgres compares nonces in a
   `BIGINT` column, everything else compares them as `u64`. Postgres names a
   proposal by its id, the filesystem by the digits of the id, without `0x`.

   The model is of one account. What a push does before it reads the queue, the
   reading of the queue, the replay of its tail, the verification of the delta and
   the checking of signatures neither read nor write a proposal: each is one call
   with any answer, so the queue it read may be arbitrarily stale. A deletion, and
   the conditional write of a signature, may come at any moment; neither waits for
   the lock. The order of a list of records is left out, no push reads it. -/
namespace Guardian.Capacity

open Interleaving

inductive Backend where
  | postgres
  | filesystem
  deriving DecidableEq, Repr

/-! ## Commitments and file names -/

/-- The digits after `0x` or `0X`. -/
def stripHexPrefix : List Char → List Char
  | '0' :: 'x' :: digits => digits
  | '0' :: 'X' :: digits => digits
  | digits => digits

def isAsciiHexdigit (c : Char) : Bool :=
  c.isDigit || ('a' ≤ c && c ≤ 'f') || ('A' ≤ c && c ≤ 'F')

/-- `normalize_commitment_hex`. -/
def normalizeCommitmentHex (commitment : String) : Except String String :=
  let normalized := stripHexPrefix commitment.toList
  if normalized.isEmpty then .error "commitment cannot be empty"
  else if !normalized.all isAsciiHexdigit then .error "commitment must be hex-encoded"
  else .ok ("0x" ++ String.ofList normalized)

/-- `trim_start_matches("0x")`. -/
def trimStart0x : List Char → List Char
  | '0' :: 'x' :: rest => trimStart0x rest
  | rest => rest

/-- How the filesystem's admission names a proposal. -/
def key (commitment : String) : Except String String :=
  (normalizeCommitmentHex commitment).map fun s => String.ofList (trimStart0x s.toList)

/-- The name of a proposal's file (`get_delta_proposal_path`), without `.json`. -/
def fileName (commitment : Commitment) : String :=
  String.ofList (stripHexPrefix commitment.toList)

/-- The commitment of a record as a backend answers it. -/
def Backend.shown (backend : Backend) (record : ProposalRecord) : ProposalRecord :=
  match backend with
  | .postgres => record
  | .filesystem => { record with commitment := fileName record.commitment }

/-! ## Limits -/

/-- `u64::saturating_add`. -/
def saturatingAdd (a b : Nat) : Nat := min (a + b) (2^64 - 1)

/-- What a proposal is judged with: its id, where its summary has one, the base
and the tail nonce of the queue that was read, the limit on proposals, and the
size of its request once that is known. -/
structure Judged where
  commitment : Option Commitment
  base : Commitment
  tail : Option Nonce
  limit : Nat
  requestBytes : Option Nat
  deriving DecidableEq, Repr

/-- Past the tail, as the `u64`s they are. -/
def pastTail (tail : Option Nonce) (nonce : Nonce) : Bool :=
  match tail with
  | none => true
  | some tail => decide (tail < nonce)

/-- Pending, on the base, and past the tail. -/
def Judged.viable (j : Judged) (r : ProposalRecord) : Bool :=
  r.proposal.status.isPending && (r.proposal.prevCommitment == j.base &&
    pastTail j.tail r.proposal.nonce)

/-- `doomed_at_or_below`: no tail is the least column. -/
def doomedAtOrBelow (tail : Option Nonce) : Int := (tail.map nonceColumn).getD (-2^63)

/-- The rows of the query Postgres counts and sums. -/
def Judged.columnViable (j : Judged) (r : ProposalRecord) : Bool :=
  r.proposal.status.isPending && (r.proposal.prevCommitment == j.base &&
    decide (doomedAtOrBelow j.tail < nonceColumn r.proposal.nonce))

def judgedOf (a : ProposalAdmission) : Judged where
  commitment := some a.commitment
  base := a.proposal.prevCommitment
  tail := a.queueTailNonce
  limit := a.maxViableProposals
  requestBytes := some a.requestBytes

/-! ## Calls -/

/-- `refused` is the error of a part that is one call here. -/
inductive PushError where
  | refused (message : String)
  | conflictPendingDelta
  | storageError (message : String)
  | invalidDelta (message : String)
  | proposalRequestTooLarge (bytes limit : Nat)
  | pendingProposalsLimit (limit : Nat)
  | accountRequestCapacityExceeded (limit used : Nat)
  deriving DecidableEq, Repr

/-- What a push reads of the candidate queue: its length, the nonce of its tail,
and the commitment a proposal must build on. -/
structure Chain where
  length : Nat
  tailNonce : Option Nonce
  tailCommitment : Commitment
  deriving DecidableEq, Repr

/-- The status of a new proposal is pending, with its proposer's signature. -/
structure Approved where
  timestamp : Time
  proposerId : String
  cosignerSigs : List CosignerSignature
  deriving DecidableEq, Repr

/-- The calls of a push. `judged`, and the admission in a query, say what the
answer is for; the query itself has only what it filters by. -/
inductive Op where
  | resolveAccount
  | loadChain
  | pullPendingProposals (judged : Judged)
  | reconstructTail
  | verifyDelta
  | creationSignatures
  | lock
  | release
  | proposalExists (a : ProposalAdmission)
  | viableCount (a : ProposalAdmission)
  | viableBytes (a : ProposalAdmission)
  | loadProposalRecords (a : ProposalAdmission)
  | readRequestSizes
  | writeRequestSizes (sizes : String → Option Nat)
  | storeProposal (a : ProposalAdmission)
  | pullDeltaProposal (commitment : Commitment)
  | respond (answer : Except PushError (DeltaObject × Commitment))

abbrev Res : Op → Type
  | .resolveAccount => Except String Payload
  | .loadChain => Except String Chain
  | .pullPendingProposals _ => Except String (List ProposalRecord)
  | .reconstructTail => Except String Unit
  | .verifyDelta => Except String Unit
  | .creationSignatures => Except String Approved
  | .lock => Except String Unit
  | .release => Unit
  | .proposalExists _ => Except String Bool
  | .viableCount _ => Except String Nat
  | .viableBytes _ => Except String Nat
  | .loadProposalRecords _ => Except String (List ProposalRecord)
  | .readRequestSizes => Except String (String → Option Nat)
  | .writeRequestSizes _ => Except String Unit
  | .storeProposal _ => Except String Unit
  | .pullDeltaProposal _ => Except String DeltaObject
  | .respond _ => Unit

abbrev Handler := ExceptT PushError (Prog Op Res)

namespace Handler

def call (o : Op) : Handler (Res o) := ExceptT.lift (Prog.op o)

/-- `map_err(..)?`. -/
def orFail {ε α : Type} (x : Except ε α) (wrap : ε → PushError) : Handler α :=
  match x with
  | .ok a => pure a
  | .error e => throw (wrap e)

/-- The lock is dropped with the answer. -/
def released {α : Type} (answer : Except PushError α) : Handler α := do
  call .release
  orFail answer id

end Handler

open Handler

/-- A replica's limits, and what it computes of payloads: their fields, the decoded
size of a stored request, and the commitment of a summary. -/
structure Server where
  maxPendingCandidates : Nat
  maxPendingProposals : Nat
  maxProposalRequestBytes : UInt32
  maxAccountRequestBytes : UInt32
  txSummary : Payload → Option String
  transactionRequest : Payload → Option String
  storedLen : String → Except String UInt64
  summaryCommitment : String → Except String Multisig.Word

/-- `delta_proposal_id`. -/
def deltaProposalId (server : Server) (summary : String) : Except String Commitment :=
  (server.summaryCommitment summary).map Multisig.commitmentHex

/-- `stored_request_bytes`. -/
def storedRequestBytes (server : Server) (payload : Payload) : Except PushError Nat :=
  match server.transactionRequest payload with
  | none => .ok 0
  | some request =>
    match server.storedLen request with
    | .error e => .error (.invalidDelta ("Invalid transaction_request: " ++ e))
    | .ok bytes =>
      if server.maxProposalRequestBytes.toNat < bytes.toNat then
        .error (.proposalRequestTooLarge bytes.toNat server.maxProposalRequestBytes.toNat)
      else .ok bytes.toNat

/-! ## Admission -/

def admitFailed (e : String) : PushError := .storageError ("Failed to admit delta proposal: " ++ e)

/-- `admit_delta_proposal` of Postgres. A statement that fails rolls the
transaction back; the insertion and its commit are one call. -/
def admitPostgres (a : ProposalAdmission) : Handler ProposalWrite := do
  if 2^63 ≤ a.requestBytes then throw (.storageError "request size does not fit the column")
  else
    orFail (← call .lock) admitFailed
    let found ← orFail (← call (.proposalExists a)) admitFailed
    if found then released (.ok .alreadyStored)
    else
      let viableCount ← orFail (← call (.viableCount a)) admitFailed
      if a.maxViableProposals ≤ viableCount then released (.ok (.pendingLimit a.maxViableProposals))
      else
        let used ← orFail (← call (.viableBytes a)) admitFailed
        if a.maxAccountRequestBytes < saturatingAdd used a.requestBytes then
          released (.ok (.accountRequestBytesLimit a.maxAccountRequestBytes used))
        else
          orFail (← call (.storeProposal a)) admitFailed
          return .stored

/-- `admit_delta_proposal` of the filesystem. -/
def admitFilesystem (a : ProposalAdmission) : Handler ProposalWrite := do
  orFail (← call .lock) .storageError
  match key a.commitment with
  | .error e => released (.error (.storageError e))
  | .ok admitted =>
    let records ← orFail (← call (.loadProposalRecords a)) .storageError
    match records.mapM fun record => key record.commitment with
    | .error e => released (.error (.storageError e))
    | .ok live =>
      if live.contains admitted then released (.ok .alreadyStored)
      else
        match (records.filter (judgedOf a).viable).mapM fun record => key record.commitment with
        | .error e => released (.error (.storageError e))
        | .ok viable =>
          if a.maxViableProposals ≤ viable.length then
            released (.ok (.pendingLimit a.maxViableProposals))
          else
            let sizes ← orFail (← call .readRequestSizes) .storageError
            let used := (viable.map fun commitment => (sizes commitment).getD 0).foldl saturatingAdd 0
            if a.maxAccountRequestBytes < saturatingAdd used a.requestBytes then
              released (.ok (.accountRequestBytesLimit a.maxAccountRequestBytes used))
            else
              let kept := fun commitment =>
                if live.contains commitment then sizes commitment else none
              orFail (← call (.writeRequestSizes
                (Function.update kept admitted (some a.requestBytes)))) .storageError
              orFail (← call (.storeProposal a)) .storageError
              return .stored

def admitDeltaProposal : Backend → ProposalAdmission → Handler ProposalWrite
  | .postgres => admitPostgres
  | .filesystem => admitFilesystem

/-! ## Pushing -/

/-- `already_stored`. -/
def alreadyStored (server : Server) (commitment : Commitment) (pushed : DeltaObject) :
    Handler DeltaObject := do
  let stored ← orFail (← call (.pullDeltaProposal commitment)) .storageError
  if server.transactionRequest stored.deltaPayload =
      server.transactionRequest pushed.deltaPayload then return stored
  else throw (.invalidDelta ("proposal " ++ commitment ++
    " already exists with a different transaction_request; push the stored request or delete " ++
    "the proposal first"))

/-- With a queue, a proposal carries the nonce after its tail's. -/
def followsTail (tailNonce : Option Nonce) (nonce : Nonce) : Bool :=
  match tailNonce with
  | none => true
  | some tail => tail.toNat + 1 == nonce.toNat

/-- Whether the pushed proposal is among the pending ones. -/
def alreadyPending (proposalId : Option (Except String Commitment))
    (pending : List ProposalRecord) : Bool :=
  match proposalId with
  | some (.ok id) => pending.any (·.commitment == id)
  | _ => false

/-- What a push is judged with when it reads the pending proposals. -/
def judgedPush (server : Server) (chain : Chain) (proposalId : Option (Except String Commitment)) :
    Judged where
  commitment := proposalId.bind Except.toOption
  base := chain.tailCommitment
  tail := chain.tailNonce
  limit := server.maxPendingProposals
  requestBytes := none

/-- The admission of a push whose delta was verified. -/
def admissionOf (server : Server) (nonce : Nonce) (chain : Chain) (payload : Payload)
    (requestBytes : Nat) (commitment : Commitment) (approved : Approved) : ProposalAdmission where
  commitment := commitment
  proposal :=
    { nonce, prevCommitment := chain.tailCommitment, newCommitment := none, deltaPayload := payload
      status := .pending approved.timestamp approved.proposerId approved.cosignerSigs }
  requestBytes := requestBytes
  maxViableProposals := server.maxPendingProposals
  queueTailNonce := chain.tailNonce
  maxAccountRequestBytes := server.maxAccountRequestBytes.toNat

/-- The end of `push_delta_proposal`, from the replay of the tail on. -/
def verifyAndAdmit (backend : Backend) (server : Server) (nonce : Nonce) (chain : Chain)
    (payload : Payload) (requestBytes : Nat) : Handler (DeltaObject × Commitment) := do
  orFail (← call .reconstructTail) .refused
  match server.txSummary payload with
  | none => throw (.invalidDelta "Missing 'tx_summary' field")
  | some summary =>
    orFail (← call .verifyDelta) .refused
    let commitment ← orFail (deltaProposalId server summary) .invalidDelta
    let approved ← orFail (← call .creationSignatures) .refused
    let a := admissionOf server nonce chain payload requestBytes commitment approved
    let write ← admitDeltaProposal backend a
    match write with
    | .stored => return (a.proposal, commitment)
    | .alreadyStored =>
      let stored ← alreadyStored server commitment a.proposal
      return (stored, commitment)
    | .pendingLimit limit => throw (.pendingProposalsLimit limit)
    | .accountRequestBytesLimit limit used => throw (.accountRequestCapacityExceeded limit used)

/-- `push_delta_proposal`. -/
def pushDeltaProposal (backend : Backend) (server : Server) (nonce : Nonce) :
    Handler (DeltaObject × Commitment) := do
  let payload ← orFail (← call .resolveAccount) .refused
  let chain ← orFail (← call .loadChain) .refused
  if server.maxPendingCandidates ≤ chain.length then throw .conflictPendingDelta
  else if !followsTail chain.tailNonce nonce then throw .conflictPendingDelta
  else
    let proposalId := (server.txSummary payload).map (deltaProposalId server)
    let judged := judgedPush server chain proposalId
    let pending ← orFail (← call (.pullPendingProposals judged))
      fun e => .storageError ("Failed to load pending proposals: " ++ e)
    if !alreadyPending proposalId pending &&
        decide (server.maxPendingProposals ≤ (pending.filter fun record =>
          record.proposal.prevCommitment == chain.tailCommitment &&
            pastTail chain.tailNonce record.proposal.nonce).length) then
      throw (.pendingProposalsLimit server.maxPendingProposals)
    else
      let requestBytes ← orFail (storedRequestBytes server payload) id
      verifyAndAdmit backend server nonce chain payload requestBytes

/-- A push to one of the replicas. -/
inductive Request where
  | push (replica : Nat) (nonce : Nonce)
  deriving DecidableEq

def handle (backend : Backend) (servers : Nat → Server) : Request → Prog Op Res Unit
  | .push replica nonce => do
    let answer ← (pushDeltaProposal backend (servers replica) nonce).run
    Prog.op (Op.respond answer)

/-! ## The machine -/

/-- The stored proposals, under their ids; the `request_bytes` column of Postgres;
the file of the request sizes on the filesystem, by file name; and who holds the
lock. -/
structure World where
  proposals : List ProposalRecord
  requestBytes : Commitment → Nat
  sizes : String → Option Nat
  lock : Option Nat

namespace World

def has (w : World) (commitment : Commitment) : Bool :=
  w.proposals.any (·.commitment == commitment)

def released (w : World) (pid : Nat) : World :=
  { w with lock := if w.lock = some pid then none else w.lock }

/-- The proposals of an account are pending. -/
def pendingProposals (w : World) : List ProposalRecord :=
  w.proposals.filter (·.proposal.status.isPending)

/-- What storing a proposal leaves: a new row with its column, or the file. -/
def stored (w : World) (backend : Backend) (a : ProposalAdmission) : World :=
  match backend with
  | .postgres =>
    { w with
      proposals := w.proposals ++ [⟨a.commitment, a.proposal⟩]
      requestBytes := Function.update w.requestBytes a.commitment a.requestBytes }
  | .filesystem =>
    { w with
      proposals := w.proposals.filter (fun r => !(r.commitment == a.commitment)) ++
        [⟨a.commitment, a.proposal⟩] }

/-- The bytes recorded for a proposal. -/
def recordedBytes (w : World) (backend : Backend) (r : ProposalRecord) : Nat :=
  match backend with
  | .postgres => w.requestBytes r.commitment
  | .filesystem => (w.sizes (fileName r.commitment)).getD 0

/-- The viable proposals. -/
def viable (w : World) (j : Judged) : List ProposalRecord := w.proposals.filter j.viable

def usedBytes (w : World) (backend : Backend) (j : Judged) : Nat :=
  ((w.viable j).map (w.recordedBytes backend)).sum

end World

/-- What the environment decides about a call: the answer of a part that is not
modelled, and whether a statement or a write failed before it was made (`failed`)
or only lost its answer (`lost`). -/
inductive Choice where
  | resolved (answer : Except String Payload)
  | chain (answer : Except String Chain)
  | reconstructed (answer : Except String Unit)
  | verified (answer : Except String Unit)
  | approved (answer : Except String Approved)
  | done
  | lost
  | failed

/-- The `SUM` of Postgres, cast to `BIGINT`. -/
def sumOfBytes (w : World) (j : Judged) : Nat :=
  ((w.proposals.filter j.columnViable).map fun r => w.requestBytes r.commitment).sum

def exec (backend : Backend) (pid : Nat) : (op : Op) → Choice → World → Option (Res op × World)
  | .resolveAccount, .resolved answer, w => some (answer, w)
  | .loadChain, .chain answer, w => some (answer, w)
  | .reconstructTail, .reconstructed answer, w => some (answer, w)
  | .verifyDelta, .verified answer, w => some (answer, w)
  | .creationSignatures, .approved answer, w => some (answer, w)
  | .pullPendingProposals _, .done, w => some (.ok (w.pendingProposals.map backend.shown), w)
  | .pullPendingProposals _, .failed, w => some (.error "read failed", w)
  | .lock, .done, w =>
    match w.lock with
    | none => some (.ok (), { w with lock := some pid })
    | some _ => none
  | .lock, .failed, w => some (.error "statement failed", w)
  | .release, .done, w => some ((), w.released pid)
  | .proposalExists a, .done, w => some (.ok (w.has a.commitment), w)
  | .viableCount a, .done, w =>
    some (.ok (w.proposals.filter (judgedOf a).columnViable).length, w)
  | .viableBytes a, .done, w =>
    if sumOfBytes w (judgedOf a) < 2^63 then some (.ok (sumOfBytes w (judgedOf a)), w)
    else some (.error "bigint out of range", w.released pid)
  | .loadProposalRecords _, .done, w => some (.ok (w.proposals.map backend.shown), w)
  | .readRequestSizes, .done, w => some (.ok w.sizes, w)
  | .writeRequestSizes sizes, .done, w => some (.ok (), { w with sizes := sizes })
  | .writeRequestSizes sizes, .lost, w =>
    some (.error "write failed", { w with sizes := sizes }.released pid)
  | .storeProposal a, .done, w => some (.ok (), (w.stored backend a).released pid)
  | .storeProposal a, .lost, w => some (.error "connection lost", (w.stored backend a).released pid)
  -- a statement or a file access that fails ends the transaction or drops the guard
  | .proposalExists _, .failed, w => some (.error "statement failed", w.released pid)
  | .viableCount _, .failed, w => some (.error "statement failed", w.released pid)
  | .viableBytes _, .failed, w => some (.error "statement failed", w.released pid)
  | .loadProposalRecords _, .failed, w => some (.error "read failed", w.released pid)
  | .readRequestSizes, .failed, w => some (.error "read failed", w.released pid)
  | .writeRequestSizes _, .failed, w => some (.error "write failed", w.released pid)
  | .storeProposal _, .failed, w => some (.error "write failed", w.released pid)
  | .pullDeltaProposal commitment, .done, w =>
    match w.proposals.find? (·.commitment == commitment) with
    | some r => some (.ok r.proposal, w)
    | none => some (.error "proposal not found", w)
  | .pullDeltaProposal _, .failed, w => some (.error "read failed", w)
  | .respond _, .done, w => some ((), w)
  | _, _, _ => none

/-- `with_approval`: a pending proposal with one more signature. -/
def withApproval (read : DeltaObject) (deltaPayload : Payload) (sig : CosignerSignature) :
    Option DeltaObject :=
  match read.status with
  | .pending timestamp proposerId sigs =>
    some { read with deltaPayload, status := .pending timestamp proposerId (sigs ++ [sig]) }
  | _ => none

/-- A signature's conditional write, with the proposal it read; and a deletion. -/
inductive Act where
  | sign (commitment : Commitment) (read : DeltaObject) (deltaPayload : Payload)
      (sig : CosignerSignature)
  | delete (commitment : Commitment)
  deriving DecidableEq

/-- The row `update_delta_proposal_if_status` writes. -/
def unchangedSince (commitment : Commitment) (read : DeltaObject) (r : ProposalRecord) : Bool :=
  r.commitment == commitment && r.proposal.status == read.status

def act : Act → World → Option World
  | .sign commitment read deltaPayload sig, w =>
    match withApproval read deltaPayload sig with
    | none => none
    | some signed =>
      some { w with proposals := w.proposals.map fun r =>
        if unchangedSince commitment read r then { r with proposal := signed } else r }
  | .delete commitment, w =>
    some { w with proposals := w.proposals.filter fun r => !(r.commitment == commitment) }

def machine (backend : Backend) : Machine Op Res World Choice Act where
  exec := exec backend
  act := act

end Guardian.Capacity
