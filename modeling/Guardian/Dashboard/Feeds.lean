import Guardian.Dashboard.Cursor
import Guardian.Lib.Paging
import Guardian.Storage.Filesystem
import Guardian.Storage.Postgres
import Mathlib.Data.Prod.Lex

/- The paged feeds (`services/dashboard_pagination.rs`, `dashboard_account_deltas.rs`,
   `get_delta_history.rs`, `dashboard_account_proposals.rs`, `dashboard_global_deltas.rs`,
   `dashboard_global_proposals.rs`, and the `list_*_paged` reads of both backends).

   A handler parses the limit and the cursor and calls its service; the service reads one
   row more than the limit and answers with the rows up to it and, where there was one
   more, a cursor for the last. What the stores hold is read anew at each request, and a
   read may fail.

   The backends order alike but for two columns: Postgres compares a nonce as the signed
   reading of its bits and an instant to the microsecond. Account ids and commitments are
   compared as the backend compares texts, in any linear order. An entry's fields that come
   from the decoded transaction summary are left out. -/
namespace Guardian.Dashboard

open Binary

abbrev PagedResult (ε : Type) := Keyset.Answer ε String

/-! ## Limits and cursors -/

def defaultLimit : Nat := 50

def maxLimit : Nat := 500

/-- `validate_limit`. -/
def validateLimit : Option Nat → Except FeedError Nat
  | none => .ok defaultLimit
  | some 0 => .error (.invalidLimit "limit must be at least 1, got 0")
  | some v =>
    if maxLimit < v then .error (.invalidLimit ("limit must be at most 500, got " ++ toString v))
    else .ok v

/-- The number a run of decimal digits writes. -/
def decimal (digits : List Char) : Option Nat :=
  if digits.isEmpty then none
  else digits.foldlM (fun n c => if c.isDigit then some (10 * n + (c.toNat - 48)) else none) 0

/-- `str::parse::<i64>`. -/
def parseI64 (s : String) : Option Int :=
  let value : Option Int := match s.toList with
    | '-' :: digits => (decimal digits).map fun n => -(n : Int)
    | '+' :: digits => (decimal digits).map fun n => (n : Int)
    | digits => (decimal digits).map fun n => (n : Int)
  value.filter fun v => decide (-2 ^ 63 ≤ v) && decide (v < 2 ^ 63)

/-- `parse_limit`. -/
def parseLimit : Option String → Except FeedError Nat
  | none => .ok defaultLimit
  | some s =>
    if s = "" then .ok defaultLimit
    else
      match parseI64 s with
      | none => .error (.invalidLimit
          ("limit must be a positive integer in [1, 500], got '" ++ s ++ "'"))
      | some value =>
        if 0 ≤ value ∧ value < 2 ^ 32 then validateLimit (some value.toNat)
        else .error (.invalidLimit ("limit must be in [1, 500], got " ++ toString value))

variable {Instant : Type}

/-- `parse_cursor`. -/
def parseCursor (prims : Primitives Instant) (secret : List UInt8) (expectedKind : CursorKind) :
    Option String → Except FeedError (Option (Cursor Instant))
  | none => .ok none
  | some s =>
    if s = "" then .ok none
    else (Cursor.decode prims s secret expectedKind).map some

/-- What the handler of every feed does before and around its service. -/
def handle {ε : Type} (prims : Primitives Instant) (secret : List UInt8) (kind : CursorKind)
    (service : Nat → Option (Cursor Instant) → Except FeedError (PagedResult ε))
    (limit cursor : Option String) : Except FeedError (PagedResult ε) :=
  match parseLimit limit with
  | .error e => .error e
  | .ok limit =>
    match parseCursor prims secret kind cursor with
    | .error e => .error e
    | .ok cursor => service limit cursor

/-- `limit.saturating_add(1)`. -/
def pageSize (limit : Nat) : Nat := min (limit + 1) (2 ^ 32 - 1)

/-! ## The stores -/

/-- What a backend's columns make of a nonce and of an instant. -/
structure Columns (Instant Stamp : Type) where
  nonce : Nonce → Int
  nonce_inj : ∀ {m n}, nonce m = nonce n → m = n
  stamp : Instant → Stamp

/-- Postgres: a `BIGINT`, and a `TIMESTAMPTZ` in microseconds. -/
def Columns.postgres (micros : Instant → Int) : Columns Instant Int where
  nonce := nonceColumn
  nonce_inj := nonceColumn_inj
  stamp := micros

/-- The filesystem compares the values themselves. -/
def Columns.filesystem : Columns Instant Instant where
  nonce n := n.toNat
  nonce_inj h := BitVec.eq_of_toNat_eq (Int.ofNat.inj h)
  stamp := id

/-- The deltas of an account, one at a nonce. -/
structure DeltaStore where
  deltas : List DeltaObject
  unique : deltas.Pairwise fun a b => a.nonce ≠ b.nonce

def DeltaStore.ofDb (db : Db) : DeltaStore where
  deltas := db.deltas.rows.map (·.delta)
  unique := by
    rw [List.pairwise_map]
    refine db.deltas.sorted.imp ?_
    intro a b hlt hnonce
    unfold DeltaRow.column at hlt
    rw [hnonce] at hlt
    exact lt_irrefl _ hlt

def DeltaStore.ofFiles (files : Files) : DeltaStore where
  deltas := files.deltas.rows
  unique := by
    refine files.deltas.sorted.imp ?_
    intro a b hlt hnonce
    rw [hnonce] at hlt
    exact lt_irrefl _ hlt

/-- A delta with its account, and the text of its status timestamp. -/
structure GlobalDeltaRow where
  accountId : Text
  delta : DeltaObject
  statusTimestamp : String

/-- The deltas of all accounts. -/
structure GlobalDeltaStore where
  rows : List GlobalDeltaRow
  unique : rows.Pairwise fun a b => a.accountId = b.accountId → a.delta.nonce ≠ b.delta.nonce

/-- A proposal with its account, its commitment and the text of its timestamp. -/
structure ProposalRow where
  accountId : Text
  commitment : Text
  proposal : DeltaObject
  originatingTimestamp : String

/-- The proposals of all accounts, an account's under their commitments. -/
structure ProposalStore where
  rows : List ProposalRow
  unique : rows.Pairwise fun a b => a.accountId = b.accountId → a.commitment ≠ b.commitment

/-! ## The reads -/

section Reads

variable {Stamp : Type} (columns : Columns Instant Stamp)

/-- The deltas of a status, from the highest nonce below the cursor's down. -/
def listDeltasPaged (shown : DeltaStatusKind → Bool) (store : DeltaStore) (limit : Nat)
    (cursor : Option Nonce) : List DeltaObject :=
  let found := (store.deltas.filter fun d => shown d.status.kind).filter fun d =>
    cursor.all fun lastNonce => decide (columns.nonce d.nonce < columns.nonce lastNonce)
  (found.mergeSort fun a b => decide (columns.nonce b.nonce ≤ columns.nonce a.nonce)).take limit

def listAccountDeltasPaged (store : DeltaStore) (limit : Nat) (cursor : Option Nonce) :
    List DeltaObject :=
  listDeltasPaged columns (fun kind => kind != .pending) store limit cursor

def listCanonicalDeltasPaged (store : DeltaStore) (limit : Nat) (cursor : Option Nonce) :
    List DeltaObject :=
  listDeltasPaged columns (fun kind => kind == .canonical) store limit cursor

structure AccountProposalCursor where
  lastNonce : Nonce
  lastCommitment : Text

structure GlobalDeltaCursor (Instant : Type) where
  lastStatusTimestamp : Instant
  lastAccountId : Text
  lastNonce : Nonce

structure GlobalProposalCursor (Instant : Type) where
  lastOriginatingTimestamp : Instant
  lastAccountId : Text
  lastNonce : Nonce
  lastCommitment : Text

variable [LinearOrder Text]

/-- The order of an account's proposals: nonce and commitment, both descending. -/
def accountProposalKey (r : ProposalRow) : Intᵒᵈ ×ₗ Textᵒᵈ :=
  toLex (OrderDual.toDual (columns.nonce r.proposal.nonce), OrderDual.toDual r.commitment)

/-- `list_account_proposals_paged`. -/
def listAccountProposalsPaged (store : ProposalStore) (accountId : Text) (limit : Nat)
    (cursor : Option AccountProposalCursor) : List ProposalRow :=
  let pending := store.rows.filter fun r =>
    decide (r.accountId = accountId) && r.proposal.status.kind == .pending
  let found := pending.filter fun r => cursor.all fun c =>
    decide (columns.nonce r.proposal.nonce < columns.nonce c.lastNonce) ||
      (decide (r.proposal.nonce = c.lastNonce) && decide (r.commitment < c.lastCommitment))
  (found.mergeSort fun a b =>
    decide (accountProposalKey columns a ≤ accountProposalKey columns b)).take limit

variable [LinearOrder Stamp] (parse : String → Except String Instant) (minUtc : Instant)

/-- The instant a stored text denotes; one that denotes none sorts behind every other. -/
def statusStamp (timestamp : String) : Stamp := columns.stamp ((parse timestamp).toOption.getD minUtc)

/-- The order of the global delta feed: newest first, then account and nonce ascending. -/
def globalDeltaKey (r : GlobalDeltaRow) : Stampᵒᵈ ×ₗ Text ×ₗ Int :=
  toLex (OrderDual.toDual (statusStamp columns parse minUtc r.statusTimestamp),
    toLex (r.accountId, columns.nonce r.delta.nonce))

/-- Past the cursor in that order. -/
def afterGlobalDelta (c : GlobalDeltaCursor Instant) (r : GlobalDeltaRow) : Bool :=
  let stamp := statusStamp columns parse minUtc r.statusTimestamp
  let cutoff := columns.stamp c.lastStatusTimestamp
  decide (stamp < cutoff) ||
    (decide (stamp = cutoff) && decide (c.lastAccountId < r.accountId)) ||
    (decide (stamp = cutoff) && decide (r.accountId = c.lastAccountId) &&
      decide (columns.nonce c.lastNonce < columns.nonce r.delta.nonce))

/-- `list_global_deltas_paged`. -/
def listGlobalDeltasPaged (store : GlobalDeltaStore) (limit : Nat)
    (cursor : Option (GlobalDeltaCursor Instant)) (statusFilter : Option (List DeltaStatusKind)) :
    List GlobalDeltaRow :=
  let shown := store.rows.filter fun r => r.delta.status.kind != .pending &&
    statusFilter.all fun allowed => allowed.contains r.delta.status.kind
  let found := shown.filter fun r => cursor.all fun c => afterGlobalDelta columns parse minUtc c r
  (found.mergeSort fun a b => decide (globalDeltaKey columns parse minUtc a ≤
    globalDeltaKey columns parse minUtc b)).take limit

/-- The order of the global proposal feed: newest first, then account, nonce and
    commitment ascending. -/
def globalProposalKey (r : ProposalRow) : Stampᵒᵈ ×ₗ Text ×ₗ Int ×ₗ Text :=
  toLex (OrderDual.toDual (statusStamp columns parse minUtc r.originatingTimestamp),
    toLex (r.accountId, toLex (columns.nonce r.proposal.nonce, r.commitment)))

/-- Past the cursor in that order. -/
def afterGlobalProposal (c : GlobalProposalCursor Instant) (r : ProposalRow) : Bool :=
  let stamp := statusStamp columns parse minUtc r.originatingTimestamp
  let cutoff := columns.stamp c.lastOriginatingTimestamp
  decide (stamp < cutoff) ||
    (decide (stamp = cutoff) && decide (c.lastAccountId < r.accountId)) ||
    (decide (stamp = cutoff) && decide (r.accountId = c.lastAccountId) &&
      decide (columns.nonce c.lastNonce < columns.nonce r.proposal.nonce)) ||
    (decide (stamp = cutoff) && decide (r.accountId = c.lastAccountId) &&
      decide (r.proposal.nonce = c.lastNonce) && decide (c.lastCommitment < r.commitment))

/-- `list_global_proposals_paged`. -/
def listGlobalProposalsPaged (store : ProposalStore) (limit : Nat)
    (cursor : Option (GlobalProposalCursor Instant)) : List ProposalRow :=
  let pending := store.rows.filter fun r => r.proposal.status.kind == .pending
  let found := pending.filter fun r => cursor.all fun c =>
    afterGlobalProposal columns parse minUtc c r
  (found.mergeSort fun a b => decide (globalProposalKey columns parse minUtc a ≤
    globalProposalKey columns parse minUtc b)).take limit

end Reads

/-! ## The delta feeds of an account -/

inductive DashboardDeltaStatus where
  | candidate
  | canonical
  | retained
  | discarded
  deriving DecidableEq, Repr

structure DashboardDeltaEntry where
  nonce : Nonce
  status : DashboardDeltaStatus
  statusTimestamp : Time
  prevCommitment : Commitment
  newCommitment : Option Commitment
  retryCount : Option Nat
  statusReason : Option String
  deriving DecidableEq, Repr

/-- `decode_delta_status`. -/
def decodeDeltaStatus : DeltaStatus → Option (DashboardDeltaStatus × Option Nat × Time)
  | .pending .. => none
  | .candidate timestamp retryCount _ _ _ => some (.candidate, some retryCount, timestamp)
  | .canonical timestamp => some (.canonical, none, timestamp)
  | .retained timestamp _ => some (.retained, none, timestamp)
  | .discarded timestamp _ => some (.discarded, none, timestamp)

/-- `decode_status_reason`. -/
def decodeStatusReason : DeltaStatus → Option String
  | .retained _ (some .retryExhausted) => some "retry_exhausted"
  | .retained _ (some .diverged) => some "diverged"
  | .retained _ (some .orphaned) => some "orphaned"
  | .discarded _ (some .clientAbandoned) => some "client_abandoned"
  | _ => none

/-- `DashboardDeltaEntry::from_delta`. -/
def DashboardDeltaEntry.fromDelta (delta : DeltaObject) : Option DashboardDeltaEntry :=
  (decodeDeltaStatus delta.status).map fun (status, retryCount, statusTimestamp) =>
    { nonce := delta.nonce, status, statusTimestamp, prevCommitment := delta.prevCommitment
      newCommitment := delta.newCommitment, retryCount
      statusReason := decodeStatusReason delta.status }

section AccountFeeds

variable {Stamp : Type} (prims : Primitives Instant) (secret : List UInt8)
  (columns : Columns Instant Stamp) (accountId : Text)

/-- `list_account_deltas`. -/
def listAccountDeltas (metadataExists : Except String Bool) (storage : Except String DeltaStore)
    (limit : Nat) (cursor : Option (Cursor Instant)) :
    Except FeedError (PagedResult DashboardDeltaEntry) :=
  if cursor.any fun c => c.kind != .accountDeltas then
    .error (.invalidCursor "expected AccountDeltas cursor kind")
  else
    match metadataExists with
    | .error e => .error (.storageError
        ("Failed to load metadata for '" ++ accountId.val ++ "': " ++ e))
    | .ok false => .error (.accountNotFound accountId.val)
    | .ok true =>
      match storage with
      | .error e => .error (.dataUnavailable
          ("Failed to load delta feed for '" ++ accountId.val ++ "': " ++ e))
      | .ok store =>
        let rows := listAccountDeltasPaged columns store (pageSize limit)
          (cursor.bind (·.lastNonce))
        let entries := rows.filterMap DashboardDeltaEntry.fromDelta
        let hasMore := decide (limit < entries.length)
        let page := entries.take limit
        let nextCursor :=
          if hasMore then page.getLast?.map fun last =>
            Cursor.encode prims (.accountDeltas last.nonce) secret
          else none
        .ok ⟨page, nextCursor⟩

/-- An entry of the history; always canonical. -/
structure HistoryEntry where
  nonce : Nonce
  timestamp : Time
  newCommitment : Option Commitment
  deriving DecidableEq, Repr

/-- `HistoryEntry::from_delta`. -/
def HistoryEntry.fromDelta (delta : DeltaObject) : HistoryEntry :=
  { nonce := delta.nonce, timestamp := delta.status.timestamp
    newCommitment := delta.newCommitment }

/-- `get_delta_history`. `resolved` is what resolving the account and the credentials
    answers. -/
def getDeltaHistory (resolved : Except FeedError Unit) (storage : Except String DeltaStore)
    (limit : Nat) (cursor : Option (Cursor Instant)) :
    Except FeedError (PagedResult HistoryEntry) :=
  if cursor.any fun c => c.kind != .accountDeltaHistory || c.lastNonce.isNone ||
      c.lastAccountId != some accountId then
    .error (.invalidCursor "expected AccountDeltaHistory cursor minted for this account")
  else
    match resolved with
    | .error e => .error e
    | .ok () =>
      match storage with
      | .error e => .error (.storageError
          ("Failed to load history for '" ++ accountId.val ++ "': " ++ e))
      | .ok store =>
        let rows := listCanonicalDeltasPaged columns store (pageSize limit)
          (cursor.bind (·.lastNonce))
        let hasMore := decide (limit < rows.length)
        let entries := (rows.take limit).map HistoryEntry.fromDelta
        let nextCursor :=
          if hasMore then entries.getLast?.map fun last =>
            Cursor.encode prims (.accountDeltaHistory last.nonce accountId) secret
          else none
        .ok ⟨entries, nextCursor⟩

/-! ## The proposals of an account -/

structure DashboardProposalEntry where
  accountId : Text
  commitment : Text
  nonce : Nonce
  proposerId : String
  originatingTimestamp : String
  signaturesCollected : Nat
  signaturesRequired : Nat
  prevCommitment : Commitment
  newCommitment : Option Commitment

/-- `signatures_required`. -/
def signaturesRequired : Auth → Nat
  | .midenFalconRpo cosignerCommitments => cosignerCommitments.length % 2 ^ 32
  | .midenEcdsa cosignerCommitments => cosignerCommitments.length % 2 ^ 32
  | .miden cosigners _ => cosigners.length % 2 ^ 32
  | .evmEcdsa _ => 0

/-- `DashboardProposalEntry::from_record`, and `entry_from` of the global feed, whose entry
    names the account. -/
def DashboardProposalEntry.fromRecord (record : ProposalRow) (auth : Auth) :
    Option DashboardProposalEntry :=
  match record.proposal.status with
  | .pending _ proposerId cosignerSigs => some
      { accountId := record.accountId, commitment := record.commitment
        nonce := record.proposal.nonce, proposerId
        originatingTimestamp := record.originatingTimestamp
        signaturesCollected := cosignerSigs.length % 2 ^ 32
        signaturesRequired := Dashboard.signaturesRequired auth
        prevCommitment := record.proposal.prevCommitment
        newCommitment := record.proposal.newCommitment }
  | _ => none

def isEvmEcdsa : Auth → Bool
  | .evmEcdsa _ => true
  | _ => false

variable [LinearOrder Text]

/-- The place of a cursor that carries a nonce and a commitment. -/
def accountProposalCursor (c : Cursor Instant) : Option AccountProposalCursor :=
  match c.lastNonce, c.lastCommitment with
  | some lastNonce, some lastCommitment => some ⟨lastNonce, lastCommitment⟩
  | _, _ => none

/-- `list_account_proposals`. -/
def listAccountProposals (metadata : Except String (Option Auth))
    (storage : Except String ProposalStore) (limit : Nat) (cursor : Option (Cursor Instant)) :
    Except FeedError (PagedResult DashboardProposalEntry) :=
  if cursor.any fun c => c.kind != .accountProposals then
    .error (.invalidCursor "expected AccountProposals cursor kind")
  else
    match metadata with
    | .error e => .error (.storageError
        ("Failed to load metadata for '" ++ accountId.val ++ "': " ++ e))
    | .ok none => .error (.accountNotFound accountId.val)
    | .ok (some auth) =>
      if isEvmEcdsa auth then .ok ⟨[], none⟩
      else
        match storage with
        | .error e => .error (.dataUnavailable
            ("Failed to load proposal queue for '" ++ accountId.val ++ "': " ++ e))
        | .ok store =>
          let records := listAccountProposalsPaged columns store accountId (pageSize limit)
            (cursor.bind accountProposalCursor)
          let entries := records.filterMap fun r => DashboardProposalEntry.fromRecord r auth
          let hasMore := decide (limit < entries.length)
          let page := entries.take limit
          let nextCursor :=
            if hasMore then page.getLast?.map fun last =>
              Cursor.encode prims (.accountProposals last.nonce last.commitment) secret
            else none
          .ok ⟨page, nextCursor⟩

end AccountFeeds

/-! ## The feeds over all accounts -/

/-- What bounds a read over all accounts: the backend, its number of accounts and the
    most it may have. -/
structure Inventory where
  filesystem : Bool
  accounts : Except String Nat
  threshold : Nat

/-- `enforce_aggregate_threshold`: only the filesystem counts its accounts. -/
def enforceAggregateThreshold (inventory : Inventory) (feedLabel : String) :
    Except FeedError Unit :=
  if inventory.filesystem then
    match inventory.accounts with
    | .error e => .error (.storageError ("Failed to list account metadata: " ++ e))
    | .ok count =>
      if inventory.threshold < count then
        .error (.dataUnavailable (feedLabel ++ ": filesystem inventory size " ++ toString count ++
          " exceeds aggregate threshold " ++ toString inventory.threshold))
      else .ok ()
  else .ok ()

structure DashboardGlobalDeltaEntry where
  accountId : Text
  nonce : Nonce
  status : DashboardDeltaStatus
  statusTimestamp : String
  prevCommitment : Commitment
  newCommitment : Option Commitment
  retryCount : Option Nat
  statusReason : Option String

/-- `entry_from` of the global delta feed. -/
def DashboardGlobalDeltaEntry.entryFrom (row : GlobalDeltaRow) :
    Option DashboardGlobalDeltaEntry :=
  (decodeDeltaStatus row.delta.status).map fun (status, retryCount, _) =>
    { accountId := row.accountId, nonce := row.delta.nonce, status
      statusTimestamp := row.statusTimestamp, prevCommitment := row.delta.prevCommitment
      newCommitment := row.delta.newCommitment, retryCount
      statusReason := decodeStatusReason row.delta.status }

/-- `map_status_filter`. -/
def mapStatusFilter : DashboardDeltaStatus → DeltaStatusKind
  | .candidate => .candidate
  | .canonical => .canonical
  | .retained => .retained
  | .discarded => .discarded

/-- `build_storage_cursor` of the global delta feed. -/
def globalDeltaCursor (c : Cursor Instant) : Option (GlobalDeltaCursor Instant) :=
  match c.lastUpdatedAt, c.lastAccountId, c.lastNonce with
  | some ts, some accountId, some lastNonce => some ⟨ts, accountId, lastNonce⟩
  | _, _, _ => none

/-- `build_storage_cursor` of the global proposal feed. -/
def globalProposalCursor (c : Cursor Instant) : Option (GlobalProposalCursor Instant) :=
  match c.lastUpdatedAt, c.lastAccountId, c.lastNonce, c.lastCommitment with
  | some ts, some accountId, some lastNonce, some lastCommitment =>
    some ⟨ts, accountId, lastNonce, lastCommitment⟩
  | _, _, _, _ => none

/-- The accounts' authorizations a page has read. -/
abbrev AuthCache := List (Text × Option Auth)

/-- An account's authorization, from the cache or read; none for an EVM account and for one
    without metadata. -/
def resolveAuth (metadata : Text → Except String (Option Auth)) (cache : AuthCache)
    (accountId : Text) : Except FeedError (Option Auth × AuthCache) :=
  match cache.lookup accountId with
  | some slot => .ok (slot, cache)
  | none =>
    match metadata accountId with
    | .error e => .error (.dataUnavailable
        ("Failed to load metadata for '" ++ accountId.val ++ "': " ++ e))
    | .ok found =>
      let resolved := found.filter fun auth => !isEvmEcdsa auth
      .ok (resolved, (accountId, resolved) :: cache)

/-- The entries of the records of a page, one record after the other. -/
def globalProposalEntries (metadata : Text → Except String (Option Auth)) :
    List ProposalRow → AuthCache → Except FeedError (List DashboardProposalEntry)
  | [], _ => .ok []
  | record :: records, cache =>
    match resolveAuth metadata cache record.accountId with
    | .error e => .error e
    | .ok (slot, cache) =>
      match globalProposalEntries metadata records cache with
      | .error e => .error e
      | .ok entries =>
        .ok ((slot.bind (DashboardProposalEntry.fromRecord record)).toList ++ entries)

section GlobalFeeds

variable {Stamp : Type} [LinearOrder Stamp] [LinearOrder Text] (prims : Primitives Instant)
  (secret : List UInt8) (columns : Columns Instant Stamp) (parse : String → Except String Instant)
  (minUtc : Instant)

/-- `list_global_deltas`. -/
def listGlobalDeltas (inventory : Inventory) (storage : Except String GlobalDeltaStore)
    (statusFilter : Option (List DashboardDeltaStatus)) (limit : Nat)
    (cursor : Option (Cursor Instant)) :
    Except FeedError (PagedResult DashboardGlobalDeltaEntry) :=
  if cursor.any fun c => c.kind != .globalDeltas then
    .error (.invalidCursor "expected GlobalDeltas cursor kind")
  else
    match enforceAggregateThreshold inventory "global delta feed" with
    | .error e => .error e
    | .ok () =>
      match storage with
      | .error e => .error (.dataUnavailable ("Failed to load global delta feed: " ++ e))
      | .ok store =>
        let rows := listGlobalDeltasPaged columns parse minUtc store (pageSize limit)
          (cursor.bind globalDeltaCursor) (statusFilter.map (·.map mapStatusFilter))
        let hasMore := decide (limit < rows.length)
        let entries := (rows.filterMap DashboardGlobalDeltaEntry.entryFrom).take limit
        if hasMore then
          match entries.getLast? with
          | none => .ok ⟨entries, none⟩
          | some last =>
            match parse last.statusTimestamp with
            | .error e => .error (.storageError
                ("global delta cursor: stored status_timestamp is not RFC3339 for ('" ++
                  last.accountId.val ++ "', nonce " ++ toString last.nonce.toNat ++ "): '" ++
                  last.statusTimestamp ++ "': " ++ e))
            | .ok ts => .ok ⟨entries,
                some (Cursor.encode prims (.globalDeltas ts last.accountId last.nonce) secret)⟩
        else .ok ⟨entries, none⟩

/-- `list_global_proposals`. -/
def listGlobalProposals (inventory : Inventory) (storage : Except String ProposalStore)
    (metadata : Text → Except String (Option Auth)) (limit : Nat)
    (cursor : Option (Cursor Instant)) : Except FeedError (PagedResult DashboardProposalEntry) :=
  if cursor.any fun c => c.kind != .globalProposals then
    .error (.invalidCursor "expected GlobalProposals cursor kind")
  else
    match enforceAggregateThreshold inventory "global proposal feed" with
    | .error e => .error e
    | .ok () =>
      match storage with
      | .error e => .error (.dataUnavailable ("Failed to load global proposal feed: " ++ e))
      | .ok store =>
        let found := listGlobalProposalsPaged columns parse minUtc store (pageSize limit)
          (cursor.bind globalProposalCursor)
        -- judged before any record is left out, and the cursor is the last record's
        let hasMore := decide (limit < found.length)
        let records := found.take limit
        match globalProposalEntries metadata records [] with
        | .error e => .error e
        | .ok entries =>
          if hasMore then
            match records.getLast? with
            | none => .ok ⟨entries, none⟩
            | some anchor =>
              match parse anchor.originatingTimestamp with
              | .error e => .error (.storageError
                  ("global proposal cursor: stored originating_timestamp is not RFC3339 for ('" ++
                    anchor.accountId.val ++ "', nonce " ++ toString anchor.proposal.nonce.toNat ++
                    ", commitment '" ++ anchor.commitment.val ++ "'): '" ++
                    anchor.originatingTimestamp ++ "': " ++ e))
              | .ok ts => .ok ⟨entries, some (Cursor.encode prims
                  (.globalProposals ts anchor.accountId anchor.proposal.nonce anchor.commitment)
                  secret)⟩
          else .ok ⟨entries, none⟩

end GlobalFeeds

end Guardian.Dashboard
