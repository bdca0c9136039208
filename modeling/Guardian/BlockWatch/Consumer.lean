import Guardian.Lib.Rely
import Guardian.BlockWatch.Store
import Guardian.Storage

/- The block watch consumer (`jobs/block_watch/consumer.rs`). The holder of the
   release sweep lease reads committed blocks in sequence from a cursor on. For
   every guarded account a block moved to a state the server does not hold it
   records an observation, and then it moves the cursor past the block. Blocks it
   cannot read, that the node no longer serves, or that are too many to replay are
   skipped, and a walk of the fleet is asked for in their place.

   The loop runs for ever, and so do its retries: a run of them that stopped is a
   run with enough `retries` and `rounds`, and a consumer that is never stepped
   again has crashed. Timers, the transport the policy picks, and everything the
   node answers are up to the environment. The counts of failures are `u32`s, and
   runs have fewer than `2^32`. -/
namespace Guardian.BlockWatch

open Interleaving

/-! ## Blocks -/

def u32Max : Nat := 2 ^ 32 - 1

/-- `saturating_add(1)`. -/
def nextBlock (n : Nat) : Nat := min (n + 1) u32Max

structure AccountUpdate where
  accountId : String
  commitment : Commitment
  deriving DecidableEq, Repr

structure ObservedBlock where
  blockNum : Nat
  updates : List AccountUpdate
  undecodableUpdates : Nat
  deriving DecidableEq, Repr

inductive Transport where
  | stream
  | poll
  deriving DecidableEq, Repr

inductive TransportMode where
  | auto
  | stream
  | poll
  deriving DecidableEq, Repr

/-- The gRPC codes the feed tells apart. -/
inductive Code where
  | outOfRange
  | internal
  | other
  deriving DecidableEq, Repr

inductive BlockSourceError where
  | status (code : Code)
  | transport
  | outOfSequence (expected got : Nat)
  | malformed
  | unavailable (blockNum : Nat)
  | ended
  | timeout
  deriving DecidableEq, Repr

def BlockSourceError.code : BlockSourceError → Option Code
  | .status code => some code
  | _ => none

/-! ## The store -/

structure Cursor where
  lastBlock : Nat
  genesis : Option String
  deriving DecidableEq, Repr

inductive CursorWrite where
  | advanced
  | notForward
  | staleLease
  deriving DecidableEq, Repr

/-- `set_cursor`: forward only, and the chain is kept unless the caller names one. -/
def setCursor (n : Nat) (genesis : Option String) : Option Cursor → CursorWrite × Option Cursor
  | none => (.advanced, some ⟨n, genesis⟩)
  | some cursor =>
    if cursor.lastBlock < n then (.advanced, some ⟨n, genesis.or cursor.genesis⟩)
    else (.notForward, some cursor)

structure NewObservation where
  accountId : String
  blockNum : Nat
  onChainCommitment : Commitment
  deriving DecidableEq, Repr

/-- `record_observations`: one row for each account and block. -/
def recordObservations (rows new : List NewObservation) : List NewObservation :=
  new.foldl (fun rows o =>
    if rows.any (fun r => r.accountId == o.accountId && r.blockNum == o.blockNum) then rows
    else rows ++ [o]) rows

/-! ## Accounts -/

/-- What the server stores of an account, as far as block watch reads it: whether
it is an unreleased Miden account, its flag, its state, and the post commitments
of its candidates and its canonical deltas. -/
structure StoredAccount where
  guarded : Bool
  hasPendingCandidate : Bool
  stateCommitment : Option Commitment
  candidatePosts : List Commitment
  canonicalPosts : List Commitment

abbrev Accounts := String → StoredAccount

structure ReleaseSweepMembership where
  sweepable : List String
  pendingCandidate : List String
  deriving DecidableEq, Repr

namespace Accounts

/-- `filter_release_sweep_ids`. -/
def membership (accounts : Accounts) (ids : List String) : ReleaseSweepMembership where
  sweepable := ids.filter (fun id => (accounts id).guarded && !(accounts id).hasPendingCandidate)
  pendingCandidate := ids.filter (fun id =>
    (accounts id).guarded && (accounts id).hasPendingCandidate)

/-- `pull_state_commitments_batch`: an account without a stored state is absent. -/
def stateCommitments (accounts : Accounts) (ids : List String) : List (String × Commitment) :=
  ids.filterMap (fun id => (accounts id).stateCommitment.map (id, ·))

/-- `filter_candidate_post_states`. -/
def candidatePostStates (accounts : Accounts) (pairs : List (String × Commitment)) :
    List (String × Commitment) :=
  pairs.filter (fun pair => decide (pair.2 ∈ (accounts pair.1).candidatePosts))

/-- `filter_canonical_post_states`. -/
def canonicalPostStates (accounts : Accounts) (pairs : List (String × Commitment)) :
    List (String × Commitment) :=
  pairs.filter (fun pair => decide (pair.2 ∈ (accounts pair.1).canonicalPosts))

end Accounts

/-! ## Calls -/

/-- How opening a source ended. -/
inductive Opened where
  | opened
  | failed (error : BlockSourceError)
  | cancelled
  deriving DecidableEq, Repr

/-- What the node sends, before its place in the sequence is checked. -/
inductive Message where
  | block (block : ObservedBlock)
  | error (error : BlockSourceError)
  | timedOut
  | cancelled
  deriving DecidableEq, Repr

inductive Op where
  | tryAcquire
  /-- Whether a wait was cancelled, or a deadline has passed. -/
  | flag
  | cursor
  | chainTip
  | genesis
  | servesBlock (blockNum : Nat)
  /-- The transport the policy picks. -/
  | transport
  | openSource (transport : Transport) (fromBlock : Nat)
  | receive (transport : Transport)
  | membership (ids : List String)
  | stateCommitments (ids : List String)
  | candidatePostStates (pairs : List (String × Commitment))
  | canonicalPostStates (pairs : List (String × Commitment))
  /-- The log line of a decision to skip the blocks from `first` up to but not
  `past`. -/
  | logSkip (first past : Nat)
  | requestWalk
  | recordObservations (observations : List NewObservation)
  | setCursor (blockNum : Nat) (genesis : Option String)
  | resetCursor (blockNum : Nat) (genesis : Option String)

/-- Reads and writes fail with `none`. -/
abbrev Res : Op → Type
  | .tryAcquire => Bool
  | .flag => Bool
  | .cursor => Option (Option Cursor)
  | .chainTip => Option Nat
  | .genesis => Option (Option String)
  | .servesBlock _ => Option Bool
  | .transport => Transport
  | .openSource _ _ => Opened
  | .receive _ => Message
  | .membership _ => Option ReleaseSweepMembership
  | .stateCommitments _ => Option (List (String × Commitment))
  | .candidatePostStates _ => Option (List (String × Commitment))
  | .canonicalPostStates _ => Option (List (String × Commitment))
  | .logSkip _ _ => Unit
  | .requestWalk => Option FencedWrite
  | .recordObservations _ => Option Unit
  | .setCursor _ _ => Option CursorWrite
  | .resetCursor _ _ => Option CursorWrite

abbrev WatchProg := Prog Op Res

namespace Consumer

def call (o : Op) : WatchProg (Res o) := Prog.op o

/-! ## Walk requests -/

/-- How recording a walk request ended. -/
inductive WalkRequest where
  | recorded
  | lostLease
  | store
  deriving DecidableEq, Repr

/-- `request_walk`. -/
def requestWalk : WatchProg WalkRequest := do
  match ← call .requestWalk with
  | some .written => return .recorded
  | some .staleLease => return .lostLease
  | none => return .store

/-- `request_walk_until_recorded`: a lost lease counts as done; `false` when
cancelled first. -/
def requestWalkUntilRecorded : Nat → WatchProg Bool
  | 0 => return false
  | retries + 1 => do
    match ← requestWalk with
    | .recorded => return true
    | .lostLease => return true
    | .store => if ← call .flag then return false else requestWalkUntilRecorded retries

/-- `skip_malformed_block`: the block to go on from. -/
def skipMalformedBlock (retries blockNum : Nat) : WatchProg Nat := do
  call (.logSkip blockNum (blockNum + 1))
  if ← requestWalkUntilRecorded retries then return nextBlock blockNum else return blockNum

/-- `jump_past_unavailable`: the block to go on from. -/
def jumpPastUnavailable (requests blockNum : Nat) : Nat → WatchProg Nat
  | 0 => return blockNum
  | retries + 1 => do
    match ← call .chainTip with
    | some tip =>
      let fromBlock := max tip (nextBlock blockNum)
      call (.logSkip blockNum fromBlock)
      if ← requestWalkUntilRecorded requests then return fromBlock else return blockNum
    | none =>
      if ← call .flag then return blockNum else jumpPastUnavailable requests blockNum retries

/-! ## Where to start -/

def maxCursorLeadBlocks : Nat := 100

structure WatchConfig where
  transport : TransportMode
  maxCatchupBlocks : Nat
  deriving DecidableEq, Repr

/-- What a consumer keeps besides its position: the genesis the node reported at
the start, and whether a walk is still to be asked for. -/
structure Feed where
  genesis : Option String
  requestRotationOnStart : Bool
  deriving DecidableEq, Repr

/-- The node's genesis; none where the cursor's chain had one is asked for
again. -/
def readGenesis (cursor : Option Cursor) : WatchProg (Option (Option String)) := do
  match ← call .genesis with
  | some none =>
    if cursor.any (·.genesis.isSome) then call .genesis else return some none
  | read => return read

/-- Whether the cursor was counted on another chain. `behindTooLong` is whether
the node has been far behind the cursor for `NODE_BEHIND_LIMIT`. -/
def chainReplaced (cursor : Cursor) (genesis : Option String) (farAhead behindTooLong : Bool) :
    Bool :=
  match cursor.genesis, genesis with
  | some recorded, some reported =>
    if recorded = reported then farAhead && behindTooLong else true
  | some _, none => true
  | none, _ => farAhead

/-- The start on another chain: a walk, then the cursor at the tip. -/
def startOver (tip : Nat) (feed : Feed) : WatchProg (Option Nat) := do
  call (.logSkip 0 (tip - 1 + 1))
  match ← requestWalk with
  | .recorded =>
    match ← call (.resetCursor (tip - 1) feed.genesis) with
    | some .advanced => return some tip
    | some .notForward => return some tip
    | _ => return none
  | _ => return none

/-- The start at the tip, past the blocks from `first` on. -/
def startAtTip (first tip : Nat) : WatchProg (Option Nat) := do
  call (.logSkip first tip)
  match ← requestWalk with
  | .recorded => return some tip
  | _ => return none

/-- The start after the cursor. -/
def resume (cursor : Cursor) (feed : Feed) : WatchProg (Option Nat × Feed) := do
  if feed.requestRotationOnStart then
    match ← requestWalk with
    | .recorded =>
      return (some (nextBlock cursor.lastBlock), { feed with requestRotationOnStart := false })
    | _ => return (none, feed)
  else return (some (nextBlock cursor.lastBlock), feed)

/-- The start on the cursor's own chain, or without a cursor. -/
def startFrom (cfg : WatchConfig) (cursor : Option Cursor) (tip : Nat) (feed : Feed) :
    WatchProg (Option Nat × Feed) := do
  match cursor with
  | none => return (← startAtTip 0 tip, feed)
  | some cursor =>
    if cfg.maxCatchupBlocks < tip - cursor.lastBlock then
      return (← startAtTip (cursor.lastBlock + 1) tip, feed)
    else resume cursor feed

/-- `start_position`; `none` is an error. -/
def startPosition (cfg : WatchConfig) (feed : Feed) : WatchProg (Option Nat × Feed) := do
  match ← call .cursor with
  | none => return (none, feed)
  | some cursor =>
    match ← call .chainTip with
    | none => return (none, feed)
    | some tip =>
      match ← readGenesis cursor with
      | none => return (none, feed)
      | some genesis =>
        let feed := { feed with genesis := genesis }
        let behindTooLong ← call .flag
        let lead := min (tip + maxCursorLeadBlocks) u32Max
        if cursor.any (fun c => chainReplaced c genesis (decide (lead < c.lastBlock)) behindTooLong)
        then return (← startOver tip feed, feed)
        else startFrom cfg cursor tip feed

/-- `start`; no position when cancelled first. -/
def start (cfg : WatchConfig) : Nat → Feed → WatchProg (Option Nat × Feed)
  | 0, feed => return (none, feed)
  | retries + 1, feed => do
    match ← startPosition cfg feed with
    | (some fromBlock, feed) => return (some fromBlock, feed)
    | (none, feed) => if ← call .flag then return (none, feed) else start cfg retries feed

/-! ## One block -/

inductive UpdateOutcome where
  | notGuarded
  | atStored
  | skippedPendingCandidate
  | observed
  | unfinishedConfiguration
  deriving DecidableEq, Repr

/-- What is read of the accounts a block updated. -/
structure BlockReads where
  membership : ReleaseSweepMembership
  stored : List (String × Commitment)
  landed : List (String × Commitment)

/-- The outcome of an update, before the account's own history is asked. -/
def BlockReads.outcome (reads : BlockReads) (update : AccountUpdate) : UpdateOutcome :=
  if update.accountId ∉ reads.membership.sweepable ∧
      update.accountId ∉ reads.membership.pendingCandidate then .notGuarded
  else
    match reads.stored.lookup update.accountId with
    | none => .unfinishedConfiguration
    | some commitment =>
      if eqIgnoreAsciiCase commitment update.commitment then .atStored
      else if (update.accountId, update.commitment) ∈ reads.landed then .skippedPendingCandidate
      else .observed

/-- The moves that may be a candidate of the account landing. -/
def pendingMoves (membership : ReleaseSweepMembership) (stored : List (String × Commitment))
    (block : ObservedBlock) : List (String × Commitment) :=
  (block.updates.filter (fun u => decide (u.accountId ∈ membership.pendingCandidate) &&
    (stored.lookup u.accountId).any (fun c => !eqIgnoreAsciiCase c u.commitment))).map
      (fun u => (u.accountId, u.commitment))

/-- Read what the block's updates are compared with. -/
def readAccounts (block : ObservedBlock) : WatchProg (Option BlockReads) := do
  let ids := (block.updates.map (·.accountId)).eraseDups
  match ← readMembership ids with
  | none => return none
  | some membership =>
    match ← readStored membership with
    | none => return none
    | some stored =>
      match ← readLanded (pendingMoves membership stored block) with
      | none => return none
      | some landed => return some ⟨membership, stored, landed⟩
where
  readMembership (ids : List String) : WatchProg (Option ReleaseSweepMembership) :=
    if ids.isEmpty then return some ⟨[], []⟩ else call (.membership ids)
  readStored (membership : ReleaseSweepMembership) :
      WatchProg (Option (List (String × Commitment))) :=
    if membership.sweepable.isEmpty && membership.pendingCandidate.isEmpty then return some []
    else call (.stateCommitments (membership.sweepable ++ membership.pendingCandidate))
  readLanded (pairs : List (String × Commitment)) :
      WatchProg (Option (List (String × Commitment))) :=
    if pairs.isEmpty then return some [] else call (.candidatePostStates pairs)

/-- The updates that moved an account to a state it does not have. -/
def movedUpdates (reads : BlockReads) (block : ObservedBlock) : List AccountUpdate :=
  block.updates.filter (fun u => decide (reads.outcome u = .observed))

/-- Which of them are old transactions of the account's own. -/
def readOwnHistory (moved : List AccountUpdate) :
    WatchProg (Option (List (String × Commitment))) :=
  if moved.isEmpty then return some []
  else call (.canonicalPostStates (moved.map (fun u => (u.accountId, u.commitment))))

def observationsOf (block : ObservedBlock) (moved : List AccountUpdate)
    (ownHistory : List (String × Commitment)) : List NewObservation :=
  (moved.filter (fun u => !decide ((u.accountId, u.commitment) ∈ ownHistory))).map
    (fun u => ⟨u.accountId, block.blockNum, u.commitment⟩)

/-- How processing a block ended. -/
inductive Processed where
  | done
  | lostLease
  | store
  deriving DecidableEq, Repr

/-- Entries that cannot be read are covered by a walk. -/
def requestForUndecodable (block : ObservedBlock) : WatchProg WalkRequest := do
  if 0 < block.undecodableUpdates then
    call (.logSkip block.blockNum (block.blockNum + 1))
    requestWalk
  else return .recorded

/-- Record the observations, then the cursor. -/
def recordAndAdvance (block : ObservedBlock) (genesis : Option String)
    (observations : List NewObservation) : WatchProg Processed := do
  let recorded ←
    if observations.isEmpty then pure (some ()) else call (.recordObservations observations)
  match recorded with
  | none => return .store
  | some _ =>
    match ← call (.setCursor block.blockNum genesis) with
    | some .staleLease => return .lostLease
    | some _ => return .done
    | none => return .store

/-- `process`. -/
def process (block : ObservedBlock) (genesis : Option String) : WatchProg Processed := do
  match ← readAccounts block with
  | none => return .store
  | some reads =>
    let moved := movedUpdates reads block
    match ← readOwnHistory moved with
    | none => return .store
    | some ownHistory =>
      match ← requestForUndecodable block with
      | .lostLease => return .lostLease
      | .store => return .store
      | .recorded => recordAndAdvance block genesis (observationsOf block moved ownHistory)

/-- `process_until_done`; `false` when the consumer is to stop. -/
def processUntilDone (block : ObservedBlock) (genesis : Option String) : Nat → WatchProg Bool
  | 0 => return false
  | retries + 1 => do
    match ← process block genesis with
    | .done => return true
    | .lostLease => return false
    | .store => if ← call .flag then return false else processUntilDone block genesis retries

/-! ## The loop -/

def malformedBlockAttempts : Nat := 5

structure MalformedStreak where
  block : Nat
  stream : Nat
  poll : Nat
  deriving DecidableEq, Repr

/-- `MalformedStreak::record`: whether the block should now be skipped. -/
def MalformedStreak.record (streak : MalformedStreak) (block : Nat) (transport : Transport)
    (mode : TransportMode) : Bool × MalformedStreak :=
  let streak := if streak.block = block then streak else ⟨block, 0, 0⟩
  let streak := match transport with
    | .stream => { streak with stream := streak.stream + 1 }
    | .poll => { streak with poll := streak.poll + 1 }
  let both := match mode with
    | .auto => decide (0 < streak.stream) && decide (0 < streak.poll)
    | .stream | .poll => true
  (both && decide (malformedBlockAttempts ≤ streak.stream + streak.poll), streak)

/-- The variables of `consume`. An open source is its transport and the block it
delivers next; `gone` is the block the node does not serve, while it does not. -/
structure Loop where
  next : Nat
  source : Option (Transport × Nat)
  firstOpen : Bool
  malformed : MalformedStreak
  gone : Option Nat
  feed : Feed
  deriving DecidableEq, Repr

/-- `chain_was_reset`. -/
def chainWasReset (feed : Feed) : WatchProg Bool :=
  match feed.genesis with
  | none => return false
  | some known => do
    match ← call .genesis with
    | some none => return true
    | some (some reported) => return reported != known
    | none => return false

/-- `next_block_is_gone`. -/
def nextBlockIsGone (error : BlockSourceError) (next : Nat) : WatchProg Bool := do
  let suspect : Bool := match error with
    | .unavailable blockNum => blockNum == next
    | other => other.code == some .internal
  if suspect then
    match ← call .chainTip with
    | none => return false
    | some tip =>
      if next ≤ tip then return (← call (.servesBlock next)) == some false else return false
  else return false

/-- `GoneBlock::confirmed`: whether the block has not been served for long
enough. -/
def goneConfirmed (l : Loop) : WatchProg (Bool × Loop) := do
  if l.gone = some l.next then return (← call .flag, l)
  else return (false, { l with gone := some l.next })

/-- Start again, and go on from there; `none` when cancelled. -/
def restart (cfg : WatchConfig) (retries : Nat) (l : Loop) : WatchProg (Option Loop) := do
  match ← start cfg retries l.feed with
  | (some fromBlock, feed) => return some { l with next := fromBlock, source := none, feed := feed }
  | (none, _) => return none

/-- A source that failed: past a block that is gone, or again from here. -/
def sourceFailed (retries : Nat) (error : BlockSourceError) (l : Loop) : WatchProg Loop := do
  let l := { l with source := none }
  if ← nextBlockIsGone error l.next then
    let (confirmed, l) ← goneConfirmed l
    if confirmed then
      let next ← jumpPastUnavailable retries l.next retries
      return { l with next := next }
    else return l
  else return l

/-- Open a source at the next block. -/
def openSource (cfg : WatchConfig) (retries : Nat) (l : Loop) : WatchProg (Option Loop) := do
  let transport ← call .transport
  match ← call (.openSource transport l.next) with
  | .cancelled => return none
  | .opened => return some { l with source := some (transport, l.next) }
  | .failed error =>
    if error.code = some .outOfRange then restart cfg retries l
    else return some (← sourceFailed retries error l)

/-- No source is open: a reopen follows a failure, which may be the node coming
back on another chain. -/
def reopen (cfg : WatchConfig) (retries : Nat) (l : Loop) : WatchProg (Option Loop) := do
  if ← call .flag then return none
  else if l.firstOpen then openSource cfg retries { l with firstOpen := false }
  else if ← chainWasReset l.feed then
    match ← restart cfg retries l with
    | none => return none
    | some l => openSource cfg retries l
  else openSource cfg retries l

/-- What the source makes of a message: a block out of sequence ends it. -/
def inSequence (expected : Nat) : Message → Message
  | .block block =>
    if block.blockNum = expected then .block block
    else .error (.outOfSequence expected block.blockNum)
  | message => message

/-- `stalled`, and what follows: on a chain far below the cursor the start is
evaluated again, a stuck source is reopened. -/
def handleStall (cfg : WatchConfig) (retries : Nat) (l : Loop) : WatchProg (Option Loop) := do
  match ← call .chainTip with
  | none => return some l
  | some tip =>
    if nextBlock (min (tip + maxCursorLeadBlocks) u32Max) < l.next then restart cfg retries l
    else if l.next ≤ tip then return some { l with source := none }
    else return some l

/-- One message of an open source. -/
def receive (cfg : WatchConfig) (retries : Nat) (transport : Transport) (expected : Nat)
    (l : Loop) : WatchProg (Option Loop) := do
  -- the stream's retry is due
  if ← call .flag then return some { l with source := none }
  else
    match inSequence expected (← call (.receive transport)) with
    | .cancelled => return none
    | .block block =>
      if ← processUntilDone block l.feed.genesis retries then
        return some
          { l with
            next := nextBlock block.blockNum
            source := some (transport, nextBlock expected) }
      else return none
    | .error error =>
      let (skip, malformed) :=
        if error = .malformed then l.malformed.record l.next transport cfg.transport
        else (false, l.malformed)
      let l := { l with malformed := malformed }
      if skip then
        let next ← skipMalformedBlock retries l.next
        return some { l with next := next, source := none }
      else return some (← sourceFailed retries error l)
    | .timedOut => if ← call .flag then return some l else handleStall cfg retries l

/-- One round of the loop. -/
def round (cfg : WatchConfig) (retries : Nat) (l : Loop) : WatchProg (Option Loop) :=
  match l.source with
  | none => reopen cfg retries l
  | some (transport, expected) => receive cfg retries transport expected l

def rounds (cfg : WatchConfig) (retries : Nat) : Nat → Loop → WatchProg Unit
  | 0, _ => return ()
  | n + 1, l => do
    match ← round cfg retries l with
    | none => return ()
    | some l => rounds cfg retries n l

/-- A consumer, as the holder of the lease starts it. -/
structure Watch where
  config : WatchConfig
  requestRotationOnStart : Bool
  retries : Nat
  rounds : Nat
  deriving DecidableEq, Repr

/-- `consume`. -/
def consume (watch : Watch) : WatchProg Unit := do
  match ← start watch.config watch.retries ⟨none, watch.requestRotationOnStart⟩ with
  | (none, _) => return ()
  | (some next, feed) =>
    rounds watch.config watch.retries watch.rounds ⟨next, none, true, ⟨0, 0, 0⟩, none, feed⟩

/-- `run_worker`, for one hold of the lease. -/
def run (watch : Watch) : WatchProg Unit := do
  if ← call .tryAcquire then consume watch else return ()

end Consumer

/-! ## The machine -/

/-- What is remembered of a run. -/
inductive Entry where
  /-- A source delivered a block, when the accounts had changed `moment` times. -/
  | delivered (block : ObservedBlock) (moment : Nat)
  | skipped (first past : Nat)
  | requested
  | recorded (accountId : String) (blockNum : Nat)
  deriving DecidableEq, Repr

/-- The store, the lease and the accounts. No process reads the last four fields:
the accounts before each change, what happened since the cursor was last put on
another chain, newest first, what had happened before, and where it was put. -/
structure World where
  backend : Backend
  lease : Option Nat
  cursor : Option Cursor
  walks : Option WalkRequests
  observations : List NewObservation
  accounts : Accounts
  formerly : List Accounts
  log : List Entry
  logBeforeReset : List Entry
  resetTo : Option Nat

namespace World

/-- How often the accounts have changed. -/
def moment (w : World) : Nat := w.formerly.length

/-- The accounts at every moment, the current one last. -/
def tables (w : World) : List Accounts := w.formerly ++ [w.accounts]

def note (entry : Entry) (w : World) : World := { w with log := entry :: w.log }

end World

/-- What the environment decides about a call. -/
inductive Choice where
  | flag (answer : Bool)
  | tip (answer : Option Nat)
  | genesis (answer : Option (Option String))
  | serves (answer : Option Bool)
  | transport (transport : Transport)
  | source (answer : Opened)
  | message (message : Message)
  | done
  | failed
  | stale
  | lost

/-- A walk request is recorded. -/
def World.requestWalk (w : World) : Option World :=
  (BlockWatch.requestWalk w.backend w.walks).map
    (fun walks => World.note .requested { w with walks := some walks })

def World.recordObservations (observations : List NewObservation) (w : World) : World :=
  { w with
    observations := BlockWatch.recordObservations w.observations observations
    log := observations.map (fun o => .recorded o.accountId o.blockNum) ++ w.log }

def World.setCursor (n : Nat) (genesis : Option String) (w : World) : World :=
  { w with cursor := (BlockWatch.setCursor n genesis w.cursor).2 }

/-- `reset_cursor`. -/
def World.resetCursor (n : Nat) (genesis : Option String) (w : World) : World :=
  { w with
    cursor := some ⟨n, genesis⟩
    log := []
    logBeforeReset := w.log
    resetTo := some n }

/-- The message a source delivers. -/
def World.deliver (message : Message) (w : World) : World :=
  match message with
  | .block block => w.note (.delivered block w.moment)
  | _ => w

/-- A fenced write, made only under a current lease. -/
def World.fenced {α : Type} (pid : Nat) (w : World) (result : Option (α × World)) :
    Option (α × World) :=
  if w.lease = some pid then result else none

/-- The call of a process that is still there. -/
def execAlive (pid : Nat) : (op : Op) → Choice → World → Option (Res op × World)
  | .tryAcquire, .flag acquired, w =>
    if acquired then
      if w.lease = none then some (true, { w with lease := some pid }) else none
    else some (false, w)
  | .flag, .flag answer, w => some (answer, w)
  | .cursor, .done, w => some (some w.cursor, w)
  | .cursor, .failed, w => some (none, w)
  | .chainTip, .tip answer, w => some (answer, w)
  | .genesis, .genesis answer, w => some (answer, w)
  | .servesBlock _, .serves answer, w => some (answer, w)
  | .transport, .transport transport, w => some (transport, w)
  | .openSource _ _, .source answer, w => some (answer, w)
  | .receive _, .message message, w => some (message, w.deliver message)
  | .membership ids, .done, w => some (some (w.accounts.membership ids), w)
  | .membership _, .failed, w => some (none, w)
  | .stateCommitments ids, .done, w => some (some (w.accounts.stateCommitments ids), w)
  | .stateCommitments _, .failed, w => some (none, w)
  | .candidatePostStates pairs, .done, w => some (some (w.accounts.candidatePostStates pairs), w)
  | .candidatePostStates _, .failed, w => some (none, w)
  | .canonicalPostStates pairs, .done, w => some (some (w.accounts.canonicalPostStates pairs), w)
  | .canonicalPostStates _, .failed, w => some (none, w)
  | .logSkip first past, .done, w => some ((), w.note (.skipped first past))
  | .requestWalk, .done, w => w.fenced pid (w.requestWalk.map (fun w' => (some .written, w')))
  | .requestWalk, .lost, w => w.fenced pid (w.requestWalk.map (fun w' => (none, w')))
  | .requestWalk, .stale, w =>
    if w.lease = some pid then none else some (some .staleLease, w)
  | .requestWalk, .failed, w => some (none, w)
  | .recordObservations observations, .done, w =>
    some (some (), w.recordObservations observations)
  | .recordObservations observations, .lost, w => some (none, w.recordObservations observations)
  | .recordObservations _, .failed, w => some (none, w)
  | .setCursor n genesis, .done, w =>
    w.fenced pid (some (some (BlockWatch.setCursor n genesis w.cursor).1, w.setCursor n genesis))
  | .setCursor n genesis, .lost, w => w.fenced pid (some (none, w.setCursor n genesis))
  | .setCursor _ _, .stale, w => if w.lease = some pid then none else some (some .staleLease, w)
  | .setCursor _ _, .failed, w => some (none, w)
  | .resetCursor n genesis, .done, w =>
    w.fenced pid (some (some .advanced, w.resetCursor n genesis))
  | .resetCursor n genesis, .lost, w => w.fenced pid (some (none, w.resetCursor n genesis))
  | .resetCursor _ _, .stale, w => if w.lease = some pid then none else some (some .staleLease, w)
  | .resetCursor _ _, .failed, w => some (none, w)
  | _, _, _ => none

def Op.isAcquire : Op → Bool
  | .tryAcquire => true
  | _ => false

/-- Without a shared store the lease is the process: whoever does not hold it any
more has stopped. -/
def World.isRunning (pid : Nat) (op : Op) (w : World) : Bool :=
  decide (w.backend = .postgres) || op.isAcquire || decide (w.lease = some pid)

def exec (pid : Nat) (op : Op) (ch : Choice) (w : World) : Option (Res op × World) :=
  if w.isRunning pid op then execAlive pid op ch w else none

/-- What happens beside the consumers: the lease lapses (a process that stops
takes its observations and walk requests along), an account changes, a visit
removes an observation, and the release sweep asks for a walk itself. -/
inductive Act where
  | lapse
  | change (accountId : String) (account : StoredAccount)
  | settle (accountId : String) (blockNum : Nat)
  | request

def act : Act → World → Option World
  | .lapse, w =>
    match w.backend with
    | .postgres => some { w with lease := none }
    | .inMemory => some { w with lease := none, walks := none, observations := [] }
  | .change accountId account, w =>
    some { w with
      accounts := Function.update w.accounts accountId account
      formerly := w.formerly ++ [w.accounts] }
  | .settle accountId blockNum, w =>
    some { w with
      observations := w.observations.filter (fun o =>
        !(o.accountId == accountId && o.blockNum == blockNum)) }
  | .request, w => w.requestWalk

def machine : Machine Op Res World Choice Act := ⟨exec, act⟩

abbrev WatchConf := Conf Op Res World Consumer.Watch

/-- Before block watch first started. -/
def World.start (backend : Backend) (accounts : Accounts) : World where
  backend := backend
  lease := none
  cursor := none
  walks := none
  observations := []
  accounts := accounts
  formerly := []
  log := []
  logBeforeReset := []
  resetTo := none

/-- Any number of consumers, on one store. -/
abbrev WatchReachable (backend : Backend) (accounts : Accounts) : WatchConf → Prop :=
  Reach machine Consumer.run Guard.any (World.start backend accounts)

end Guardian.BlockWatch
