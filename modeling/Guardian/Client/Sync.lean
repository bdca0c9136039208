import Guardian.Lib.History
import Guardian.Multisig.Account

/- The Rust SDK's sync with GUARDIAN (`miden-multisig-client/src/client/account.rs`,
   `client/mod.rs`), beside the executions that put its local account ahead
   (`finalize_transaction` in `client/helpers.rs`).

   A sync asks GUARDIAN for its head and its state and replaces the local account by
   that state if the node shows it on chain. It goes back, to a state that is not
   ahead of the local one, only if the local state is a transaction this client
   submitted without a miden-client record and that will not land.

   GUARDIAN may answer anything, and something else each time it is asked. The node
   answers from some block it has, none older than the store is synced to. Blocks
   come at any moment, also between two calls of a sync, and have any account state;
   a transaction of this client is in no block after its expiration. miden-client
   and its store may do anything in a network sync. An operation has the client to
   itself, as `&mut self` is.

   An error is its kind, its text is left out. So is what a switch of the endpoint
   does once the account is set. -/
namespace Guardian.ClientSync

open Interleaving
open Multisig (Word)

/-! ## Data -/

/-- What the SDK computes of accounts and texts. -/
structure Sdk (A : Type) where
  accountId : A → String
  commitment : A → Word
  nonce : A → Nat
  wordFromHex : String → Option Word
  /-- The account in a state's JSON. -/
  readAccount : String → Option A

inductive SyncError where
  | missingConfig
  | guardianServer
  | hexDecode
  | midenClient
  | invalidConfig
  | transactionExecution
  deriving DecidableEq, Repr

/-- `TX_DISCARD_DELTA`. -/
def txDiscardDelta : Nat := 20

/-- A transaction whose post-state was written to the store without a record. The
SDK does not keep which transaction it is (`tx`). -/
structure UntrackedSubmission where
  commitment : Word
  submissionHeight : Nat
  expirationBlockNum : Nat
  tx : Nat
  deriving DecidableEq, Repr

namespace UntrackedSubmission

def expiredAt (s : UntrackedSubmission) (syncHeight : Nat) : Bool :=
  decide (s.expirationBlockNum ≤ syncHeight)

def droppedAt (s : UntrackedSubmission) (syncHeight : Nat) : Bool :=
  s.expiredAt syncHeight || decide (s.submissionHeight < syncHeight - txDiscardDelta)

end UntrackedSubmission

inductive TransactionStatus where
  | pending
  | committed
  | discarded
  deriving DecidableEq, Repr

/-- A record of miden-client. -/
structure TransactionRecord where
  accountId : String
  status : TransactionStatus
  deriving DecidableEq, Repr

/-- The status of a delta as GUARDIAN sends it. -/
inductive DeltaStatus where
  | pending
  | candidate
  | canonical
  | retained
  | discarded
  deriving DecidableEq, Repr

structure DeltaObject where
  newCommitment : String
  status : Option DeltaStatus
  deriving DecidableEq, Repr

/-- What `get_delta` answers. -/
inductive DeltaAnswer where
  | answered (delta : Option DeltaObject)
  | notFound
  | failed
  deriving DecidableEq, Repr

structure StateObject where
  commitment : String
  stateJson : String
  deriving DecidableEq, Repr

inductive StoreAnswer where
  | stored
  | commitmentMismatch
  | failed
  deriving DecidableEq, Repr

structure CanonicalHead where
  nonce : Nat
  commitment : Word

/-- `is_not_ahead_of`. -/
def CanonicalHead.isNotAheadOf (head : CanonicalHead) (localNonce : Nat) (localCommitment : Word) :
    Bool :=
  if head.nonce < localNonce then true
  else if localNonce < head.nonce then false
  else head.commitment == localCommitment

section Sdk
variable {A : Type} (S : Sdk A)

/-- `delta_may_still_land_as`. -/
def deltaMayStillLandAs (delta : DeltaObject) (localCommitment : Word) : Bool :=
  if delta.status = some .discarded then false
  else
    match S.wordFromHex delta.newCommitment with
    | none => true
    | some recorded => recorded == localCommitment

/-- GUARDIAN holds no delta that may still land as the local state. -/
def holdsNone (localCommitment : Word) : DeltaAnswer → Bool
  | .answered delta => !delta.any (deltaMayStillLandAs S · localCommitment)
  | .notFound => true
  | .failed => false

end Sdk

/-! ## Calls -/

inductive Op (A : Type) where
  | begin
  | finish
  | account
  | takeAccount
  | setAccount (account : A)
  | replaceAccount (fresh : A)
  | untrackedSubmission
  | recordSubmission (s : UntrackedSubmission)
  | getCanonicalNonce
  | getState
  | getDelta (nonce : Nat)
  | onChainCommitment
  | getSyncHeight
  | uncommittedTransactions
  | inputNotesToCarry
  | rollBackStore (fresh : A)
  | addOrUpdateAccount (account : A)
  | resetMidenClient
  | storedAccount
  | syncState
  | executeTransaction
  | submitProven (expirationBlockNum : Nat)
  | applyTransactionUpdate (post : A)

variable {A : Type}

/-- The outer `none` of a read or a write is its error. -/
abbrev Res : Op A → Type
  | .begin => Unit
  | .finish => Unit
  | .account => Option A
  | .takeAccount => Option A
  | .setAccount _ => Unit
  | .replaceAccount _ => Unit
  | .untrackedSubmission => Option UntrackedSubmission
  | .recordSubmission _ => Unit
  | .getCanonicalNonce => Option (Nat × String)
  | .getState => Option (Option StateObject)
  | .getDelta _ => DeltaAnswer
  | .onChainCommitment => Option (Option Word)
  | .getSyncHeight => Option Nat
  | .uncommittedTransactions => Option (List TransactionRecord)
  | .inputNotesToCarry => Option Bool
  | .rollBackStore _ => Bool
  | .addOrUpdateAccount _ => StoreAnswer
  | .resetMidenClient => Bool
  | .storedAccount => Option (Option A)
  | .syncState => Bool
  | .executeTransaction => Option (A × Nat)
  | .submitProven _ => Option (Nat × Nat)
  | .applyTransactionUpdate _ => Bool

abbrev Handler (A : Type) := ExceptT SyncError (Prog (Op A) Res)

namespace Handler

def call (o : Op A) : Handler A (Res o) := ExceptT.lift (Prog.op o)

/-- `?` on what may be missing. -/
def orFail {α : Type} (x : Option α) (e : SyncError) : Handler A α :=
  match x with
  | some a => pure a
  | none => throw e

end Handler

open Handler

/-! ## Syncing -/

section Sync
variable (S : Sdk A)

/-- `ensure_safe_to_overwrite_local_state`. -/
def ensureSafeToOverwriteLocalState (incoming : Word) : Handler A Unit := do
  let onChain ← orFail (← call .onChainCommitment) .midenClient
  match onChain with
  | none => return ()
  | some onChain => if onChain = incoming then return () else throw .invalidConfig

/-- The end of `local_state_abandoned`, with a dropped submission. -/
def droppedAbandoned (submission : UntrackedSubmission) (syncHeight : Nat) (accountId : String)
    (localNonce : Nat) (localCommitment guardianCommitment : Word) : Handler A Bool := do
  match ← call .uncommittedTransactions with
  | none => return false
  | some records =>
    if records.any (fun record => record.accountId == accountId && record.status == .pending) then
      return false
    else
      match ← call .onChainCommitment with
      | none => return false
      | some onChain =>
        if onChain = some guardianCommitment then
          if submission.expiredAt syncHeight then return true
          else
            let answer ← call (.getDelta localNonce)
            return holdsNone S localCommitment answer
        else return false

/-- `local_state_abandoned`. -/
def localStateAbandoned (accountId : String) (localNonce : Nat)
    (localCommitment guardianCommitment : Word) : Handler A Bool := do
  let recorded ← call .untrackedSubmission
  match recorded.filter (fun s => s.commitment = localCommitment) with
  | none => return false
  | some submission =>
    match ← call .getSyncHeight with
    | none => return false
    | some syncHeight =>
      if submission.droppedAt syncHeight then
        droppedAbandoned S submission syncHeight accountId localNonce localCommitment
          guardianCommitment
      else return false

/-- Storing a state that is ahead, in a fresh store if the current one refuses it. -/
def storeAhead (fresh : A) : Handler A Unit := do
  match ← call (.addOrUpdateAccount fresh) with
  | .stored => return ()
  | .failed => throw .midenClient
  | .commitmentMismatch =>
    if ← call .resetMidenClient then
      match ← call (.addOrUpdateAccount fresh) with
      | .stored => return ()
      | _ => throw .midenClient
    else throw .midenClient

/-- The end of `sync_from_guardian_internal`: the state may replace the local
account. -/
def install (fresh : A) (rollingBack : Bool) : Handler A Bool := do
  ensureSafeToOverwriteLocalState (S.commitment fresh)
  if rollingBack then
    let carried ← orFail (← call .inputNotesToCarry) .midenClient
    if carried then
      if ← call (.rollBackStore fresh) then
        call (.replaceAccount fresh)
        return true
      else throw .midenClient
    else return false
  else
    storeAhead fresh
    call (.replaceAccount fresh)
    return true

/-- `sync_from_guardian_internal` from the fetch of the state on, with what the
local state was already judged abandoned against. -/
def fetchState (account : A) (abandonedAgainst : Option Word) : Handler A Bool := do
  let answer ← orFail (← call .getState) .guardianServer
  let state ← orFail answer .guardianServer
  let guardianCommitment ← orFail (S.wordFromHex state.commitment) .hexDecode
  if S.commitment account = guardianCommitment then return false
  else
    let fresh ← orFail (S.readAccount state.stateJson) .midenClient
    let rollingBack := decide (S.nonce fresh ≤ S.nonce account)
    if rollingBack && !(abandonedAgainst == some guardianCommitment) then
      let abandoned ← localStateAbandoned S (S.accountId account) (S.nonce account)
        (S.commitment account) guardianCommitment
      if abandoned then install S fresh rollingBack else return false
    else install S fresh rollingBack

/-- `sync_from_guardian_internal`. -/
def syncFromGuardianInternal : Handler A Bool := do
  let account ← orFail (← call .account) .missingConfig
  let (nonce, text) ← orFail (← call .getCanonicalNonce) .guardianServer
  let commitment ← orFail (S.wordFromHex text) .hexDecode
  let head : CanonicalHead := ⟨nonce, commitment⟩
  if head.isNotAheadOf (S.nonce account) (S.commitment account) then
    if head.commitment = S.commitment account then return false
    else
      let abandoned ← localStateAbandoned S (S.accountId account) (S.nonce account)
        (S.commitment account) head.commitment
      if abandoned then fetchState S account (some head.commitment) else return false
  else fetchState S account none

/-- `sync_network_state`. -/
def syncNetworkState : Handler A Unit := do
  if ← call .syncState then return () else throw .midenClient

/-- `refresh_cached_account_from_store`. Where the store cannot be read, the client
is left without an account. -/
def refreshCachedAccountFromStore : Handler A Unit := do
  match ← call .takeAccount with
  | none => return ()
  | some _ =>
    let answer ← orFail (← call .storedAccount) .midenClient
    let stored ← orFail answer .missingConfig
    call (.setAccount stored)

/-- `sync`. -/
def sync : Handler A Unit := do
  syncNetworkState
  let accountUpdated ← syncFromGuardianInternal S
  if accountUpdated then
    syncNetworkState
    refreshCachedAccountFromStore
  else refreshCachedAccountFromStore

/-- `sync_network_only`. -/
def syncNetworkOnly : Handler A Unit := do
  syncNetworkState
  refreshCachedAccountFromStore

/-- `sync_from_guardian`. -/
def syncFromGuardian : Handler A Unit := do
  let _ ← syncFromGuardianInternal S
  return ()

/-! ## Executing -/

/-- `finalize_transaction` of a change that is rebuilt from its delta: no record, and
the submission is remembered. -/
def finalizeUntracked : Handler A Unit := do
  let answer ← orFail (← call .storedAccount) .midenClient
  let _base ← orFail answer .missingConfig
  let (rebuilt, expiration) ← orFail (← call .executeTransaction) .transactionExecution
  let (tx, submissionHeight) ← orFail (← call (.submitProven expiration)) .transactionExecution
  match ← call (.addOrUpdateAccount rebuilt) with
  | .stored =>
    call (.recordSubmission ⟨S.commitment rebuilt, submissionHeight, expiration, tx⟩)
    let _ ← call .syncState
    call (.setAccount rebuilt)
  | _ => throw .midenClient

/-- `finalize_transaction` of any other: miden-client keeps a record. -/
def finalizeTracked : Handler A Unit := do
  let (post, expiration) ← orFail (← call .executeTransaction) .transactionExecution
  let _ ← orFail (← call (.submitProven expiration)) .transactionExecution
  if ← call (.applyTransactionUpdate post) then
    let _ ← call .syncState
    let answer ← orFail (← call .storedAccount) .midenClient
    let stored ← orFail answer .missingConfig
    call (.setAccount stored)
  else throw .transactionExecution

end Sync

inductive Request where
  | sync
  | syncNetworkOnly
  | syncFromGuardian
  | finalizeUntracked
  | finalizeTracked
  deriving DecidableEq, Repr

/-- The body of an operation. -/
def operation (S : Sdk A) : Request → Handler A Unit
  | .sync => sync S
  | .syncNetworkOnly => syncNetworkOnly
  | .syncFromGuardian => syncFromGuardian S
  | .finalizeUntracked => finalizeUntracked S
  | .finalizeTracked => finalizeTracked

/-- An operation has the client from its start to its end. -/
def handle (S : Sdk A) (req : Request) : Prog (Op A) Res Unit := do
  Prog.op Op.begin
  let _ ← (operation S req).run
  Prog.op Op.finish

/-! ## The client and the chain -/

/-- The client, with the store and the records of its miden-client. -/
structure Client (A : Type) where
  account : Option A
  submission : Option UntrackedSubmission
  stored : Option A
  records : List TransactionRecord
  syncHeight : Nat

/-- A block: the account's commitment after it, and the transactions in it. -/
structure Block where
  state : Option Word
  included : List Nat
  deriving DecidableEq, Repr

/-- The blocks, by number; the expirations of this client's transactions; and the
operation that has the client. -/
structure World (A : Type) where
  client : Client A
  blocks : List Block
  sent : Nat → Option Nat
  busy : Option Nat

/-- What the environment decides: what GUARDIAN, the node and miden-client
answer. -/
inductive Choice (A : Type) where
  | done
  | failed
  | head (nonce : Nat) (commitment : String)
  | state (answer : Option StateObject)
  | delta (answer : DeltaAnswer)
  | node (block : Nat)
  | notes (carried : Bool)
  | mismatch
  | synced (block : Nat) (stored : Option A) (records : List TransactionRecord)
  | executed (post : A) (expirationBlockNum : Nat)
  | submitted (tx submissionHeight : Nat)
  | lost (tx : Nat)

/-- No block has the transaction, and none was sent under its number. -/
def World.unsent (w : World A) (tx : Nat) : Bool :=
  (w.sent tx).isNone && w.blocks.all fun b => !b.included.contains tx

/-- A transaction goes to the node. -/
def World.send (w : World A) (tx expirationBlockNum : Nat) : World A :=
  { w with sent := Function.update w.sent tx (some expirationBlockNum) }

def World.withClient (w : World A) (client : Client A) : World A := { w with client := client }

def exec (pid : Nat) : (op : Op A) → Choice A → World A → Option (Res op × World A)
  | .begin, .done, w =>
    match w.busy with
    | none => some ((), { w with busy := some pid })
    | some _ => none
  | .finish, .done, w => some ((), { w with busy := if w.busy = some pid then none else w.busy })
  | .account, .done, w => some (w.client.account, w)
  | .takeAccount, .done, w =>
    some (w.client.account, w.withClient { w.client with account := none })
  | .setAccount account, .done, w =>
    some ((), w.withClient { w.client with account := some account })
  | .replaceAccount fresh, .done, w =>
    some ((), w.withClient { w.client with account := some fresh })
  | .untrackedSubmission, .done, w => some (w.client.submission, w)
  | .recordSubmission s, .done, w =>
    some ((), w.withClient { w.client with submission := some s })
  | .getCanonicalNonce, .head nonce commitment, w => some (some (nonce, commitment), w)
  | .getCanonicalNonce, .failed, w => some (none, w)
  | .getState, .state answer, w => some (some answer, w)
  | .getState, .failed, w => some (none, w)
  | .getDelta _, .delta answer, w => some (answer, w)
  | .onChainCommitment, .node block, w =>
    -- from a block the node has, none older than the store is synced to
    if w.client.syncHeight ≤ block then
      match w.blocks[block]? with
      | some b => some (some b.state, w)
      | none => none
    else none
  | .onChainCommitment, .failed, w => some (none, w)
  | .getSyncHeight, .done, w => some (some w.client.syncHeight, w)
  | .getSyncHeight, .failed, w => some (none, w)
  | .uncommittedTransactions, .done, w => some (some w.client.records, w)
  | .uncommittedTransactions, .failed, w => some (none, w)
  | .inputNotesToCarry, .notes carried, w => some (some carried, w)
  | .inputNotesToCarry, .failed, w => some (none, w)
  | .rollBackStore fresh, .synced block _ _, w =>
    if block < w.blocks.length then
      some (true, w.withClient { w.client with
        submission := none, stored := some fresh, records := [], syncHeight := block })
    else none
  | .rollBackStore _, .failed, w => some (false, w)
  | .addOrUpdateAccount account, .done, w =>
    some (.stored, w.withClient { w.client with stored := some account })
  | .addOrUpdateAccount _, .mismatch, w => some (.commitmentMismatch, w)
  | .addOrUpdateAccount _, .failed, w => some (.failed, w)
  | .resetMidenClient, .done, w =>
    some (true, w.withClient { w.client with stored := none, records := [], syncHeight := 0 })
  | .resetMidenClient, .failed, w => some (false, w)
  | .storedAccount, .done, w => some (some w.client.stored, w)
  | .storedAccount, .failed, w => some (none, w)
  | .syncState, .synced block stored records, w =>
    if block < w.blocks.length then
      some (true, w.withClient { w.client with stored, records, syncHeight := block })
    else none
  | .syncState, .failed, w => some (false, w)
  | .executeTransaction, .executed post expiration, w => some (some (post, expiration), w)
  | .executeTransaction, .failed, w => some (none, w)
  | .submitProven expiration, .submitted tx submissionHeight, w =>
    if w.unsent tx then some (some (tx, submissionHeight), w.send tx expiration) else none
  | .submitProven expiration, .lost tx, w =>
    if w.unsent tx then some (none, w.send tx expiration) else none
  | .submitProven _, .failed, w => some (none, w)
  | .applyTransactionUpdate post, .synced _ _ records, w =>
    some (true, w.withClient { w.client with stored := some post, records })
  | .applyTransactionUpdate _, .failed, w => some (false, w)
  | _, _, _ => none

/-- A block is added. -/
inductive Act where
  | block (b : Block)
  deriving DecidableEq

/-- A transaction this client sent is in no block after its expiration. -/
def World.mayInclude (w : World A) (b : Block) : Bool :=
  b.included.all fun tx =>
    match w.sent tx with
    | none => true
    | some expirationBlockNum => decide (w.blocks.length ≤ expirationBlockNum)

def act : Act → World A → Option (World A)
  | .block b, w => if w.mayInclude b then some { w with blocks := w.blocks ++ [b] } else none

def machine (A : Type) : Machine (Op A) Res (World A) (Choice A) Act where
  exec := exec
  act := act

/-! ## What a sync saw -/

/-- An answer a sync's decision rests on. -/
inductive Saw where
  | submission (s : UntrackedSubmission)
  | syncedTo (height : Nat)
  | records (records : List TransactionRecord)
  | reported (block : Nat) (state : Option Word)
  | delta (nonce : Nat) (answer : DeltaAnswer)

/-- A replacement of the local account, with what its sync saw and how many blocks
there were. -/
structure Replacement (A : Type) where
  before : Option A
  fresh : A
  saw : List Saw
  blocks : Nat

structure Log (A : Type) where
  saw : Nat → List Saw
  replaced : List (Replacement A)

def Log.empty : Log A := ⟨fun _ => [], []⟩

def Log.see (log : Log A) (pid : Nat) (saw : Saw) : Log A :=
  { log with saw := Function.update log.saw pid (saw :: log.saw pid) }

def noteSaw : Note (Op A) (World A) (Choice A) (Log A)
  | pid, .untrackedSubmission, .done, w, log =>
    match w.client.submission with
    | some s => log.see pid (.submission s)
    | none => log
  | pid, .getSyncHeight, .done, w, log => log.see pid (.syncedTo w.client.syncHeight)
  | pid, .uncommittedTransactions, .done, w, log => log.see pid (.records w.client.records)
  | pid, .onChainCommitment, .node block, w, log =>
    match w.blocks[block]? with
    | some b => log.see pid (.reported block b.state)
    | none => log
  | pid, .getDelta nonce, .delta answer, _, log => log.see pid (.delta nonce answer)
  | pid, .replaceAccount fresh, .done, w, log =>
    { log with
      replaced := ⟨w.client.account, fresh, log.saw pid, w.blocks.length⟩ :: log.replaced }
  | _, _, _, _, log => log

end Guardian.ClientSync
