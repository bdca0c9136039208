import Mathlib.Logic.Function.Basic
import Guardian.Metadata
import Guardian.Replay.Floors

/- The metadata stores (`metadata/mod.rs`, `metadata/postgres.rs`,
   `metadata/filesystem.rs`) over any number of accounts: the whole record of an
   account, and the operations that write it, as each backend performs them. The
   filesystem store keeps records in a map and replaces them whole; Postgres
   writes columns.

   Timestamps are instants; Postgres keeps their microseconds (`column`). Texts
   are such as a `text` column holds. A write to disk or to the database that
   fails is not modelled: both stores then answer an error. -/
namespace Guardian.MetadataStores

open Replay

/-! ## Records -/

/-- Nanoseconds from the epoch of Postgres, 2000-01-01. -/
abbrev Instant := Int

/-- What a `TIMESTAMPTZ` column keeps (`num_microseconds`). -/
def column (t : Instant) : Instant := 1000 * t.tdiv 1000

inductive MidenNetworkType where
  | local
  | devnet
  | testnet
  | cedar
  | mainnet
  deriving DecidableEq, Repr

inductive NetworkConfig where
  | miden (networkType : MidenNetworkType)
  | evm (chainId : UInt64) (accountAddress multisigValidatorAddress : String)
  deriving DecidableEq, Repr

structure AccountMetadata where
  accountId : String
  auth : Auth
  networkConfig : NetworkConfig
  createdAt : Instant
  updatedAt : Instant
  hasPendingCandidate : Bool
  pausedAt : Option Instant
  pausedReason : Option String
  releasedAt : Option Instant
  deriving DecidableEq, Repr

inductive AccountStatus where
  | active
  | paused
  deriving DecidableEq, Repr

structure PauseTransition where
  beforeState : AccountStatus
  afterState : AccountStatus
  pausedAt : Option Instant
  pausedReason : Option String
  deriving DecidableEq, Repr

inductive ReleaseTransition where
  | released
  | alreadyReleased
  | stateMoved
  deriving DecidableEq, Repr

inductive ClearTransition where
  | cleared
  | notReleased
  | stateMoved
  deriving DecidableEq, Repr

inductive MetadataError where
  /-- `Account not found: {account_id}` -/
  | accountNotFound (accountId : String)
  /-- `Failed to read the stored state: ..` -/
  | unreadState
  /-- `Failed to update last_auth_timestamp: ..`, a foreign key violation. -/
  | noSuchRow
  deriving DecidableEq, Repr

def AccountMetadata.status (m : AccountMetadata) : AccountStatus :=
  if m.pausedAt.isSome then .paused else .active

/-! ## Operations -/

/-- An operation, with the stored commitments its release checks read. -/
inductive Op where
  | create (metadata : AccountMetadata)
  | set (metadata : AccountMetadata)
  | updateAuth (accountId : String) (newAuth : Auth) (now : Instant)
  | setPause (accountId : String) (now : Instant) (reason : String)
  | clearPause (accountId : String)
  | setReleasedIfState (accountId : String) (now : Instant) (expected : Commitment)
  | clearReleasedIfState (accountId : String) (expected : Commitment)
  | updateLastAuthTimestampCas (accountId signerCommitment : String) (newTimestamp : Int64)
  deriving DecidableEq, Repr

/-- What an operation answers. -/
inductive Answer where
  | done
  | created (inserted : Bool)
  | pause (transition : PauseTransition)
  | release (transition : ReleaseTransition)
  | clear (transition : ClearTransition)
  | recorded (accepted : Bool)
  deriving DecidableEq, Repr

abbrev Outcome := Except MetadataError Answer

/-- The commitments of the stored states. -/
abbrev States := String → Option Commitment

/-- `update_auth`, the trait's default over a store's `get` and `set`. -/
def updateAuth {S : Type} (get : S → String → Option AccountMetadata)
    (set : AccountMetadata → S → S) (accountId : String) (newAuth : Auth) (now : Instant) (s : S) :
    Outcome × S :=
  match get s accountId with
  | none => (.error (.accountNotFound accountId), s)
  | some metadata =>
    if metadata.auth = newAuth then (.ok .done, s)
    else (.ok .done, set { metadata with auth := newAuth, updatedAt := now } s)

/-! ## The filesystem store -/

structure Files where
  cache : String → Option AccountMetadata
  authState : Floors String

namespace Files

def get (s : Files) (accountId : String) : Option AccountMetadata := s.cache accountId

def put (metadata : AccountMetadata) (accountId : String) (s : Files) : Files :=
  { s with cache := Function.update s.cache accountId (some metadata) }

/-- Pause and release stay as they are; everything else is the entry's. -/
def set (metadata : AccountMetadata) (s : Files) : Files :=
  match s.cache metadata.accountId with
  | some existing =>
    s.put { metadata with
      pausedAt := existing.pausedAt, pausedReason := existing.pausedReason
      releasedAt := existing.releasedAt } metadata.accountId
  | none => s.put metadata metadata.accountId

def create (metadata : AccountMetadata) (s : Files) : Outcome × Files :=
  match s.cache metadata.accountId with
  | some _ => (.ok (.created false), s)
  | none => (.ok (.created true), s.put metadata metadata.accountId)

def setPause (accountId : String) (now : Instant) (reason : String) (s : Files) : Outcome × Files :=
  match s.cache accountId with
  | none => (.error (.accountNotFound accountId), s)
  | some m =>
    let m' := if m.pausedAt.isSome then m
      else { m with pausedAt := some now, pausedReason := some reason }
    (.ok (.pause ⟨m.status, .paused, m'.pausedAt, m'.pausedReason⟩), s.put m' accountId)

def clearPause (accountId : String) (s : Files) : Outcome × Files :=
  match s.cache accountId with
  | none => (.error (.accountNotFound accountId), s)
  | some m =>
    (.ok (.pause ⟨m.status, .active, none, none⟩),
      s.put { m with pausedAt := none, pausedReason := none } accountId)

def setReleasedIfState (states : States) (accountId : String) (now : Instant)
    (expected : Commitment) (s : Files) : Outcome × Files :=
  match s.cache accountId with
  | none => (.error (.accountNotFound accountId), s)
  | some m =>
    if m.releasedAt.isSome then (.ok (.release .alreadyReleased), s)
    else
      match states accountId with
      | none => (.error .unreadState, s)
      | some current =>
        if current ≠ expected then (.ok (.release .stateMoved), s)
        else (.ok (.release .released), s.put { m with releasedAt := some now } accountId)

def clearReleasedIfState (states : States) (accountId : String) (expected : Commitment)
    (s : Files) : Outcome × Files :=
  match s.cache accountId with
  | none => (.error (.accountNotFound accountId), s)
  | some m =>
    if m.releasedAt.isNone then (.ok (.clear .notReleased), s)
    else
      match states accountId with
      | none => (.error .unreadState, s)
      | some current =>
        if current ≠ expected then (.ok (.clear .stateMoved), s)
        else (.ok (.clear .cleared), s.put { m with releasedAt := none } accountId)

def updateLastAuthTimestampCas (accountId signerCommitment : String) (newTimestamp : Int64)
    (s : Files) : Outcome × Files :=
  match s.cache accountId with
  | none => (.error (.accountNotFound accountId), s)
  | some _ =>
    let (accepted, authState) := Filesystem.updateLastAuthTimestampCas accountId signerCommitment
      newTimestamp s.authState
    (.ok (.recorded accepted), { s with authState })

def exec (states : States) : Op → Files → Outcome × Files
  | .create metadata, s => create metadata s
  | .set metadata, s => (.ok .done, set metadata s)
  | .updateAuth accountId newAuth now, s => updateAuth get set accountId newAuth now s
  | .setPause accountId now reason, s => setPause accountId now reason s
  | .clearPause accountId, s => clearPause accountId s
  | .setReleasedIfState accountId now expected, s => setReleasedIfState states accountId now expected s
  | .clearReleasedIfState accountId expected, s => clearReleasedIfState states accountId expected s
  | .updateLastAuthTimestampCas accountId signer ts, s =>
    updateLastAuthTimestampCas accountId signer ts s

end Files

/-! ## The Postgres store -/

/-- `account_metadata`, its timestamps as the columns keep them, and
`account_auth_state`, whose account references the former. -/
structure Tables where
  rows : String → Option AccountMetadata
  authState : Floors Postgres.Cell

namespace Tables

def get (s : Tables) (accountId : String) : Option AccountMetadata := s.rows accountId

/-- The row of `NewMetadata`. -/
def newMetadata (m : AccountMetadata) : AccountMetadata :=
  { m with
    createdAt := column m.createdAt, updatedAt := column m.updatedAt
    pausedAt := m.pausedAt.map column, releasedAt := m.releasedAt.map column }

def put (row : AccountMetadata) (accountId : String) (s : Tables) : Tables :=
  { s with rows := Function.update s.rows accountId (some row) }

/-- `INSERT .. ON CONFLICT DO UPDATE SET auth, network_config, updated_at`. -/
def set (metadata : AccountMetadata) (s : Tables) : Tables :=
  match s.rows metadata.accountId with
  | some row =>
    s.put { row with
      auth := metadata.auth, networkConfig := metadata.networkConfig
      updatedAt := column metadata.updatedAt } metadata.accountId
  | none => s.put (newMetadata metadata) metadata.accountId

/-- `INSERT .. ON CONFLICT DO NOTHING`. -/
def create (metadata : AccountMetadata) (s : Tables) : Outcome × Tables :=
  match s.rows metadata.accountId with
  | some _ => (.ok (.created false), s)
  | none => (.ok (.created true), s.put (newMetadata metadata) metadata.accountId)

/-- Nothing comes between the read and the update, whose filter then holds. -/
def setPause (accountId : String) (now : Instant) (reason : String) (s : Tables) :
    Outcome × Tables :=
  match s.rows accountId with
  | none => (.error (.accountNotFound accountId), s)
  | some before =>
    if before.status = .active then
      (.ok (.pause ⟨before.status, .paused, some now, some reason⟩),
        s.put { before with pausedAt := some (column now), pausedReason := some reason } accountId)
    else (.ok (.pause ⟨before.status, .paused, before.pausedAt, before.pausedReason⟩), s)

def clearPause (accountId : String) (s : Tables) : Outcome × Tables :=
  match s.rows accountId with
  | none => (.error (.accountNotFound accountId), s)
  | some before =>
    (.ok (.pause ⟨before.status, .active, none, none⟩),
      s.put { before with pausedAt := none, pausedReason := none } accountId)

/-- The check reads the `states` row, absent or not. -/
def setReleasedIfState (states : States) (accountId : String) (now : Instant)
    (expected : Commitment) (s : Tables) : Outcome × Tables :=
  match s.rows accountId with
  | none => (.error (.accountNotFound accountId), s)
  | some row =>
    if row.releasedAt.isSome then (.ok (.release .alreadyReleased), s)
    else if states accountId ≠ some expected then (.ok (.release .stateMoved), s)
    else (.ok (.release .released), s.put { row with releasedAt := some (column now) } accountId)

def clearReleasedIfState (states : States) (accountId : String) (expected : Commitment)
    (s : Tables) : Outcome × Tables :=
  match s.rows accountId with
  | none => (.error (.accountNotFound accountId), s)
  | some row =>
    if row.releasedAt.isNone then (.ok (.clear .notReleased), s)
    else if states accountId ≠ some expected then (.ok (.clear .stateMoved), s)
    else (.ok (.clear .cleared), s.put { row with releasedAt := none } accountId)

/-- A row that would be written for an account without metadata violates the
foreign key. -/
def updateLastAuthTimestampCas (accountId signerCommitment : String) (newTimestamp : Int64)
    (s : Tables) : Outcome × Tables :=
  let (accepted, authState) := Postgres.updateLastAuthTimestampCas accountId signerCommitment
    newTimestamp s.authState
  if accepted && (s.rows accountId).isNone then (.error .noSuchRow, s)
  else (.ok (.recorded accepted), { s with authState })

def exec (states : States) : Op → Tables → Outcome × Tables
  | .create metadata, s => create metadata s
  | .set metadata, s => (.ok .done, set metadata s)
  | .updateAuth accountId newAuth now, s => updateAuth get set accountId newAuth now s
  | .setPause accountId now reason, s => setPause accountId now reason s
  | .clearPause accountId, s => clearPause accountId s
  | .setReleasedIfState accountId now expected, s => setReleasedIfState states accountId now expected s
  | .clearReleasedIfState accountId expected, s => clearReleasedIfState states accountId expected s
  | .updateLastAuthTimestampCas accountId signer ts, s =>
    updateLastAuthTimestampCas accountId signer ts s

end Tables

/-! ## Runs -/

/-- The outcomes of a sequence of operations, each with the states stored at the
time, and the store after it. -/
def run {S : Type} (exec : States → Op → S → Outcome × S) :
    List (States × Op) → S → List Outcome × S
  | [], s => ([], s)
  | (states, op) :: steps, s =>
    let (outcome, s) := exec states op s
    let (outcomes, s) := run exec steps s
    (outcome :: outcomes, s)

def Files.empty : Files := ⟨fun _ => none, fun _ => none⟩

def Tables.empty : Tables := ⟨fun _ => none, fun _ => none⟩

end Guardian.MetadataStores
