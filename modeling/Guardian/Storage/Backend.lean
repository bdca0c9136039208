import Guardian.Storage.FileOperations
import Mathlib.Data.Prod.Lex

/- A storage backend with all its accounts (`StorageBackend` in
   `server/src/storage/mod.rs`): the operations on one account, and the reads
   that list payloads of several or in pages. A backend is what stores one
   account, with the proof that it never looks into payloads
   (`perform_mapPayload`); `postgres` and `filesystem` are the two there are.

   The listings are one definition: what the two backends differ in is how they
   compare nonces (`nonceKey`: the signed column, or the `u64`) and instants
   (`stampKey`: nanoseconds here, and microseconds in the database's columns).
   A cursor's `last_nonce: i64` is its 64 bits. Account ids and commitments are
   compared by code points, as the filesystem does and as the database does
   under the C collation.

   The reads that hold no payload (counts, listings of ids and of executions) are
   left out, and so is the refusal of a cross-account read over too many files. -/
namespace Guardian

/-- One account's store, and what its operations do with payloads. -/
structure StorageBackend where
  Store : Type
  empty : Store
  perform : Store → StorageOp → StorageAnswer × Store
  state : Store → Option StateObject
  deltas : Store → List DeltaObject
  superseded : Store → List SupersededDelta
  proposals : Store → List ProposalRecord
  /-- What nonces are ordered by. -/
  nonceKey : Nonce → Int
  /-- What instants are ordered by. -/
  stampKey : Time → Nat
  /-- Whether a cursor of `pull_recent_candidate_deltas` can have this nonce. -/
  readsNonce : Nonce → Bool
  mapPayload : PayloadMap → Store → Store
  empty_mapPayload : ∀ g, mapPayload g empty = empty
  perform_mapPayload : ∀ g : PayloadMap, g.Canonical → ∀ s op,
    perform (mapPayload g s) (op.mapPayload g) =
      Prod.map (·.mapPayload g) (mapPayload g) (perform s op)
  state_mapPayload : ∀ g s, state (mapPayload g s) = (state s).map (·.mapPayload g)
  deltas_mapPayload : ∀ g s, deltas (mapPayload g s) = (deltas s).map (·.mapPayload g)
  superseded_mapPayload : ∀ g s,
    superseded (mapPayload g s) = (superseded s).map (·.mapPayload g)
  proposals_mapPayload : ∀ g s, proposals (mapPayload g s) = (proposals s).map (·.mapPayload g)

theorem AccountStore.deltas_mapPayload (g : PayloadMap) (s : AccountStore) :
    (s.mapPayload g).db.deltas.rows.map (·.delta) =
      (s.db.deltas.rows.map (·.delta)).map (·.mapPayload g) := by
  rw [show (s.mapPayload g).db.deltas.rows = s.db.deltas.rows.map (·.mapPayload g) from rfl,
    List.map_map, List.map_map]
  rfl

namespace StorageBackend

/-- `PostgresService`. -/
def postgres : StorageBackend where
  Store := AccountStore
  empty := .empty
  perform := AccountStore.perform
  state s := s.db.state
  deltas s := s.db.deltas.rows.map (·.delta)
  superseded s := s.db.superseded
  proposals s := s.db.proposals
  nonceKey := nonceColumn
  stampKey t := t / 1000
  -- `i64::try_from`
  readsNonce nonce := decide (nonce.toNat < 2^63)
  mapPayload := AccountStore.mapPayload
  empty_mapPayload _ := rfl
  perform_mapPayload g _ s op := s.perform_mapPayload g op
  state_mapPayload _ _ := rfl
  deltas_mapPayload g s := AccountStore.deltas_mapPayload g s
  superseded_mapPayload _ _ := rfl
  proposals_mapPayload _ _ := rfl

/-- `FilesystemService`. -/
def filesystem : StorageBackend where
  Store := FileStore
  empty := .empty
  perform := FileStore.perform
  state s := s.files.state
  deltas s := s.files.deltas.rows
  superseded s := s.files.superseded
  proposals s := s.proposals.rows
  nonceKey nonce := nonce.toNat
  stampKey t := t
  readsNonce _ := true
  mapPayload := FileStore.mapPayload
  empty_mapPayload _ := rfl
  perform_mapPayload _ hg s op := s.perform_mapPayload hg op
  state_mapPayload _ _ := rfl
  deltas_mapPayload _ _ := rfl
  superseded_mapPayload _ _ := rfl
  proposals_mapPayload _ _ := rfl

end StorageBackend

/-! ## Accounts -/

/-- The accounts of a backend: the ids it was asked to write for, each once and in
order, and their stores. -/
structure Accounts (B : StorageBackend) where
  ids : List String
  store : String → B.Store

namespace Accounts
variable {B : StorageBackend}

/-- Nothing is stored for any account. -/
def empty : Accounts B := ⟨[], fun _ => B.empty⟩

/-- The store of one account replaced. -/
def set (s : Accounts B) (account : String) (store : B.Store) : Accounts B where
  ids := if account ∈ s.ids then s.ids else s.ids.orderedInsert (· ≤ ·) account
  store := Function.update s.store account store

/-- One operation on an account. -/
def perform (s : Accounts B) (account : String) (op : StorageOp) : StorageAnswer × Accounts B :=
  let answer := B.perform (s.store account) op
  (answer.1, s.set account answer.2)

/-- The deltas of all accounts. -/
def allDeltas (s : Accounts B) : List (String × DeltaObject) :=
  s.ids.flatMap (fun id => (B.deltas (s.store id)).map (Prod.mk id))

/-- The proposals of all accounts. -/
def allProposals (s : Accounts B) : List (String × ProposalRecord) :=
  s.ids.flatMap (fun id => (B.proposals (s.store id)).map (Prod.mk id))

end Accounts

/-! ## Listings -/

/-- The first `limit` rows with `keep`, in the order of their keys. -/
def paged {α κ : Type} [LinearOrder κ] (key : α → κ) (keep : α → Bool) (limit : Nat)
    (rows : List α) : List α :=
  ((rows.filter keep).insertionSort (fun a b => key a ≤ key b)).take limit

theorem paged_map {α κ : Type} [LinearOrder κ] {key : α → κ} {keep : α → Bool} {f : α → α}
    (hkey : ∀ a, key (f a) = key a) (hkeep : ∀ a, keep (f a) = keep a) (limit : Nat)
    (rows : List α) : paged key keep limit (rows.map f) = (paged key keep limit rows).map f := by
  unfold paged
  rw [Table.filter_mapped hkeep, Table.insertionSort_mapped (f := f), List.map_take]
  intro a b
  rw [hkey, hkey]

namespace StorageRead

structure AccountProposalCursor where
  lastNonce : Nonce
  lastCommitment : Commitment

structure GlobalDeltaCursor where
  lastStatusTimestamp : Time
  lastAccountId : String
  lastNonce : Nonce

structure RecentCandidateCursor where
  lastStatusTimestamp : Time
  lastAccountId : String
  lastNonce : Nonce

structure GlobalProposalCursor where
  lastOriginatingTimestamp : Time
  lastAccountId : String
  lastNonce : Nonce
  lastCommitment : Commitment

end StorageRead

inductive StorageRead where
  | pullStatesBatch (accountIds : List String)
  | pullRecentCandidateDeltas (since : Time) (cursor : Option StorageRead.RecentCandidateCursor)
      (limit : Nat)
  | listAccountDeltasPaged (accountId : String) (limit : Nat) (cursor : Option Nonce)
  | listCanonicalDeltasPaged (accountId : String) (limit : Nat) (cursor : Option Nonce)
  | listAccountProposalsPaged (accountId : String) (limit : Nat)
      (cursor : Option StorageRead.AccountProposalCursor)
  | listGlobalDeltasPaged (limit : Nat) (cursor : Option StorageRead.GlobalDeltaCursor)
      (statusFilter : Option (List DeltaStatusKind))
  | listGlobalProposalsPaged (limit : Nat) (cursor : Option StorageRead.GlobalProposalCursor)

/-- The rows of a listing, each with its account. The entries of
`pull_states_batch` are in the order they were asked for. -/
inductive StorageRows where
  | failed
  | states (rows : List (String × StateObject))
  | deltas (rows : List (String × DeltaObject))
  | proposals (rows : List (String × ProposalRecord))
  deriving DecidableEq, Repr

namespace StorageBackend
variable (B : StorageBackend)

/-- Oldest first, then by account and nonce. -/
def recentKey (stamp : Time) (account : String) (nonce : Nonce) : Nat ×ₗ String ×ₗ Int :=
  toLex (B.stampKey stamp, toLex (account, B.nonceKey nonce))

/-- Newest first, then by account and nonce. -/
def feedKey (stamp : Time) (account : String) (nonce : Nonce) : Natᵒᵈ ×ₗ String ×ₗ Int :=
  toLex (OrderDual.toDual (B.stampKey stamp), toLex (account, B.nonceKey nonce))

/-- Newest first, then by account, nonce and commitment. -/
def proposalFeedKey (stamp : Time) (account : String) (nonce : Nonce) (commitment : Commitment) :
    Natᵒᵈ ×ₗ String ×ₗ Int ×ₗ String :=
  toLex (OrderDual.toDual (B.stampKey stamp),
    toLex (account, toLex (B.nonceKey nonce, commitment)))

/-- By nonce and commitment, both descending. -/
def accountProposalKey (nonce : Nonce) (commitment : Commitment) : Intᵒᵈ ×ₗ Stringᵒᵈ :=
  toLex (OrderDual.toDual (B.nonceKey nonce), OrderDual.toDual commitment)

/-- The deltas of one account with `keep`, newest nonce first, from below the
cursor's on. -/
def accountDeltas (s : Accounts B) (account : String) (keep : DeltaStatus → Bool) (limit : Nat)
    (cursor : Option Nonce) : StorageRows :=
  .deltas (paged (fun r => OrderDual.toDual (B.nonceKey r.2.nonce))
    (fun r => keep r.2.status &&
      cursor.all (fun last => decide (B.nonceKey r.2.nonce < B.nonceKey last)))
    limit ((B.deltas (s.store account)).map (Prod.mk account)))

/-- One listing. -/
def read (s : Accounts B) : StorageRead → StorageRows
  | .pullStatesBatch accountIds =>
    .states (accountIds.dedup.filterMap (fun id => (B.state (s.store id)).map (Prod.mk id)))
  | .pullRecentCandidateDeltas since cursor limit =>
    if cursor.all (fun c => B.readsNonce c.lastNonce) then
      .deltas (paged (fun r => B.recentKey r.2.status.timestamp r.1 r.2.nonce)
        (fun r => r.2.status.isCandidate &&
          decide (B.stampKey since < B.stampKey r.2.status.timestamp) &&
          cursor.all (fun c => decide (B.recentKey c.lastStatusTimestamp c.lastAccountId c.lastNonce <
            B.recentKey r.2.status.timestamp r.1 r.2.nonce)))
        limit s.allDeltas)
    else .failed
  | .listAccountDeltasPaged account limit cursor =>
    B.accountDeltas s account (fun status => !status.isPending) limit cursor
  | .listCanonicalDeltasPaged account limit cursor =>
    B.accountDeltas s account (·.isCanonical) limit cursor
  | .listAccountProposalsPaged account limit cursor =>
    .proposals (paged (fun r => B.accountProposalKey r.2.proposal.nonce r.2.commitment)
      (fun r => r.2.proposal.status.isPending &&
        cursor.all (fun c => decide (B.accountProposalKey c.lastNonce c.lastCommitment <
          B.accountProposalKey r.2.proposal.nonce r.2.commitment)))
      limit ((B.proposals (s.store account)).map (Prod.mk account)))
  | .listGlobalDeltasPaged limit cursor statusFilter =>
    .deltas (paged (fun r => B.feedKey r.2.status.timestamp r.1 r.2.nonce)
      (fun r => !r.2.status.isPending &&
        statusFilter.all (fun allowed => allowed.contains r.2.status.kind) &&
        cursor.all (fun c => decide (B.feedKey c.lastStatusTimestamp c.lastAccountId c.lastNonce <
          B.feedKey r.2.status.timestamp r.1 r.2.nonce)))
      limit s.allDeltas)
  | .listGlobalProposalsPaged limit cursor =>
    .proposals (paged
      (fun r => B.proposalFeedKey r.2.proposal.status.timestamp r.1 r.2.proposal.nonce r.2.commitment)
      (fun r => r.2.proposal.status.isPending &&
        cursor.all (fun c => decide (B.proposalFeedKey c.lastOriginatingTimestamp c.lastAccountId
          c.lastNonce c.lastCommitment <
          B.proposalFeedKey r.2.proposal.status.timestamp r.1 r.2.proposal.nonce r.2.commitment)))
      limit s.allProposals)

end StorageBackend

/-! ## Payloads -/

/-- The listing with every payload rewritten, each by its account's map. -/
def StorageRows.mapPayload (g : String → PayloadMap) : StorageRows → StorageRows
  | .failed => .failed
  | .states rows => .states (rows.map (fun r => (r.1, r.2.mapPayload (g r.1))))
  | .deltas rows => .deltas (rows.map (fun r => (r.1, r.2.mapPayload (g r.1))))
  | .proposals rows => .proposals (rows.map (fun r => (r.1, r.2.mapPayload (g r.1))))

namespace Accounts
variable {B : StorageBackend} (g : String → PayloadMap) (s : Accounts B)

def mapPayload : Accounts B where
  ids := s.ids
  store account := B.mapPayload (g account) (s.store account)

theorem empty_mapPayload : (empty : Accounts B).mapPayload g = empty := by
  simp only [mapPayload, empty, B.empty_mapPayload]

theorem set_mapPayload (account : String) (store : B.Store) :
    (s.mapPayload g).set account (B.mapPayload (g account) store) =
      (s.set account store).mapPayload g := by
  refine congrArg (Accounts.mk _) (funext fun a => ?_)
  by_cases ha : a = account
  · subst ha
    simp only [set, Function.update_self]
  · simp only [set, Function.update_of_ne ha, mapPayload]

variable {g} in
/-- Operations do not look into payloads. -/
theorem perform_mapPayload (hg : ∀ account, (g account).Canonical) (account : String)
    (op : StorageOp) : (s.mapPayload g).perform account (op.mapPayload (g account)) =
      Prod.map (·.mapPayload (g account)) (·.mapPayload g) (s.perform account op) := by
  have hop := B.perform_mapPayload (g account) (hg account) (s.store account) op
  unfold perform
  rw [show (s.mapPayload g).store account = B.mapPayload (g account) (s.store account) from rfl, hop]
  exact Prod.ext rfl (s.set_mapPayload g account _)

theorem allDeltas_mapPayload : (s.mapPayload g).allDeltas =
    s.allDeltas.map (fun r => (r.1, r.2.mapPayload (g r.1))) := by
  simp only [allDeltas, mapPayload, B.deltas_mapPayload, List.map_flatMap, List.map_map]
  rfl

theorem allProposals_mapPayload : (s.mapPayload g).allProposals =
    s.allProposals.map (fun r => (r.1, r.2.mapPayload (g r.1))) := by
  simp only [allProposals, mapPayload, B.proposals_mapPayload, List.map_flatMap, List.map_map]
  rfl

end Accounts

namespace StorageBackend
variable (B : StorageBackend) (g : String → PayloadMap) (s : Accounts B)

/-- Rows of one account, each rewritten. -/
theorem tagged_mapPayload {α : Type} (f : PayloadMap → α → α) (account : String) (rows : List α) :
    (rows.map (f (g account))).map (Prod.mk account) =
      (rows.map (Prod.mk account)).map (fun r => (r.1, f (g r.1) r.2)) := by
  rw [List.map_map, List.map_map]
  rfl

theorem accountDeltas_mapPayload (account : String) (keep : DeltaStatus → Bool) (limit : Nat)
    (cursor : Option Nonce) : B.accountDeltas (s.mapPayload g) account keep limit cursor =
      (B.accountDeltas s account keep limit cursor).mapPayload g := by
  refine congrArg StorageRows.deltas ?_
  rw [show (s.mapPayload g).store account = B.mapPayload (g account) (s.store account) from rfl,
    B.deltas_mapPayload, tagged_mapPayload g DeltaObject.mapPayload, paged_map]
  · exact fun _ => rfl
  · exact fun _ => rfl

/-- Listings do not look into payloads. -/
theorem read_mapPayload (op : StorageRead) :
    B.read (s.mapPayload g) op = (B.read s op).mapPayload g := by
  cases op with
  | pullStatesBatch accountIds =>
    refine congrArg StorageRows.states ?_
    rw [List.map_filterMap]
    refine List.filterMap_congr fun id _ => ?_
    rw [show (s.mapPayload g).store id = B.mapPayload (g id) (s.store id) from rfl,
      B.state_mapPayload, Option.map_map, Option.map_map]
    rfl
  | pullRecentCandidateDeltas since cursor limit =>
    simp only [read]
    split
    · refine congrArg StorageRows.deltas ?_
      rw [s.allDeltas_mapPayload, paged_map]
      · exact fun _ => rfl
      · exact fun _ => rfl
    · rfl
  | listAccountDeltasPaged account limit cursor =>
    exact B.accountDeltas_mapPayload g s account (fun status => !status.isPending) limit cursor
  | listCanonicalDeltasPaged account limit cursor =>
    exact B.accountDeltas_mapPayload g s account (·.isCanonical) limit cursor
  | listAccountProposalsPaged account limit cursor =>
    refine congrArg StorageRows.proposals ?_
    rw [show (s.mapPayload g).store account = B.mapPayload (g account) (s.store account) from rfl,
      B.proposals_mapPayload, tagged_mapPayload g ProposalRecord.mapPayload, paged_map]
    · exact fun _ => rfl
    · exact fun _ => rfl
  | listGlobalDeltasPaged limit cursor statusFilter =>
    refine congrArg StorageRows.deltas ?_
    rw [s.allDeltas_mapPayload, paged_map]
    · exact fun _ => rfl
    · exact fun _ => rfl
  | listGlobalProposalsPaged limit cursor =>
    refine congrArg StorageRows.proposals ?_
    rw [s.allProposals_mapPayload, paged_map]
    · exact fun _ => rfl
    · exact fun _ => rfl

end StorageBackend
end Guardian
