import Guardian.Dashboard.FeedReadings
import Mathlib.Data.String.Basic

/- Readings of the proposal queue of an account and of the feeds over all accounts.

   These feeds name a place by several columns. The filter a cursor adds is the order of
   the columns, so the pages are pages by a key. A row is followed through a reading by
   its key: a delta that changes its status changes its timestamp and with it its place,
   so of the global delta feed what is shown for certain is what kept its timestamp. The
   global proposal feed leaves out the accounts it has no Miden authorization for, after
   it has cut the page. -/
namespace Guardian.Dashboard

open Binary Keyset

/-! ## Entries and authorizations -/

theorem isSome_fromRecord {r : ProposalRow} {auth : Auth} :
    (DashboardProposalEntry.fromRecord r auth).isSome = true ↔
      r.proposal.status.kind = .pending := by
  unfold DashboardProposalEntry.fromRecord
  cases r.proposal.status <;> simp [DeltaStatus.kind]

/-- An entry names the proposal it shows. -/
theorem fromRecord_fields {r : ProposalRow} {auth : Auth} {e : DashboardProposalEntry}
    (h : DashboardProposalEntry.fromRecord r auth = some e) :
    e.accountId = r.accountId ∧ e.commitment = r.commitment ∧ e.nonce = r.proposal.nonce ∧
      e.originatingTimestamp = r.originatingTimestamp := by
  unfold DashboardProposalEntry.fromRecord at h
  split at h
  · obtain rfl := Option.some.inj h
    exact ⟨rfl, rfl, rfl, rfl⟩
  · cases h

/-- In the feed under a filter. -/
def inDeltaFeed (statusFilter : Option (List DeltaStatusKind)) (kind : DeltaStatusKind) : Bool :=
  kind != .pending && statusFilter.all fun allowed => allowed.contains kind

theorem isSome_entryFrom {statusFilter : Option (List DeltaStatusKind)} {r : GlobalDeltaRow}
    (h : inDeltaFeed statusFilter r.delta.status.kind = true) :
    (DashboardGlobalDeltaEntry.entryFrom r).isSome := by
  have hkind := bne_iff_ne.mp (Bool.and_eq_true_iff.mp h).1
  unfold DashboardGlobalDeltaEntry.entryFrom
  rw [Option.isSome_map]
  revert hkind
  cases r.delta.status <;> simp [decodeDeltaStatus, DeltaStatus.kind]

theorem entryFrom_fields {r : GlobalDeltaRow} {e : DashboardGlobalDeltaEntry}
    (h : DashboardGlobalDeltaEntry.entryFrom r = some e) :
    e.accountId = r.accountId ∧ e.nonce = r.delta.nonce ∧
      e.statusTimestamp = r.statusTimestamp := by
  obtain ⟨fields, -, rfl⟩ := Option.map_eq_some_iff.mp h
  exact ⟨rfl, rfl, rfl⟩

/-- The authorization the queue is shown under: none for an EVM account. -/
def authAt : Except String (Option Auth) → Option Auth
  | .ok found => found.filter fun auth => !isEvmEcdsa auth
  | .error _ => none

theorem authAt_evm {auth : Auth} (h : isEvmEcdsa auth = true) : authAt (.ok (some auth)) = none := by
  simp [authAt, h]

theorem authAt_miden {auth : Auth} (h : isEvmEcdsa auth = false) :
    authAt (.ok (some auth)) = some auth := by
  simp [authAt, h]

theorem of_authAt {metadata : Except String (Option Auth)} {auth : Auth}
    (h : authAt metadata = some auth) : metadata = .ok (some auth) ∧ isEvmEcdsa auth = false := by
  unfold authAt at h
  split at h
  next found =>
    obtain ⟨rfl, hmiden⟩ := Option.filter_eq_some_iff.mp h
    exact ⟨rfl, by simpa using hmiden⟩
  · cases h

/-- The cache holds what was read. -/
def CacheHolds (metadata : Text → Except String (Option Auth)) (cache : AuthCache) : Prop :=
  ∀ accountId slot, cache.lookup accountId = some slot → slot = authAt (metadata accountId)

theorem resolveAuth_ok {metadata : Text → Except String (Option Auth)} {cache cache' : AuthCache}
    {accountId : Text} {slot : Option Auth} (hcache : CacheHolds metadata cache)
    (h : resolveAuth metadata cache accountId = .ok (slot, cache')) :
    slot = authAt (metadata accountId) ∧ CacheHolds metadata cache' := by
  unfold resolveAuth at h
  split at h
  next held hheld =>
    obtain ⟨rfl, rfl⟩ := Prod.mk.inj (Except.ok.inj h)
    exact ⟨hcache accountId _ hheld, hcache⟩
  next hmiss =>
    split at h
    · cases h
    next found hfound =>
    obtain ⟨rfl, rfl⟩ := Prod.mk.inj (Except.ok.inj h)
    have hslot : found.filter (fun auth => !isEvmEcdsa auth) = authAt (metadata accountId) := by
      rw [hfound]
      rfl
    refine ⟨hslot, ?_⟩
    intro other held hheld
    rw [List.lookup_cons] at hheld
    split at hheld
    next hsame =>
      rw [eq_of_beq hsame, ← Option.some.inj hheld]
      exact hslot
    · exact hcache other held hheld

/-- What a page shows of a record. -/
def shownProposal (metadata : Text → Except String (Option Auth)) (r : ProposalRow) :
    Option DashboardProposalEntry :=
  (authAt (metadata r.accountId)).bind (DashboardProposalEntry.fromRecord r)

/-- The entries of a page are those of its records, each under its account's authorization:
    the cache changes nothing. -/
theorem globalProposalEntries_ok {metadata : Text → Except String (Option Auth)}
    {records : List ProposalRow} {cache : AuthCache} {entries : List DashboardProposalEntry}
    (hcache : CacheHolds metadata cache)
    (h : globalProposalEntries metadata records cache = .ok entries) :
    entries = records.filterMap (shownProposal metadata) := by
  induction records generalizing cache entries with
  | nil =>
    obtain rfl := Except.ok.inj h
    rfl
  | cons r records ih =>
    unfold globalProposalEntries at h
    split at h
    · cases h
    next slot cache' hresolve =>
    split at h
    · cases h
    next rest hrest =>
    obtain rfl := Except.ok.inj h
    obtain ⟨hslot, hcache'⟩ := resolveAuth_ok hcache hresolve
    rw [hslot, ih hcache' hrest]
    show (shownProposal metadata r).toList ++ _ = _
    cases hentry : shownProposal metadata r with
    | none => rw [List.filterMap_cons_none hentry, Option.toList_none, List.nil_append]
    | some e =>
      rw [List.filterMap_cons_some hentry, Option.toList_some, List.singleton_append]

/-- The proposals read: none for an account that has no queue. -/
def queueAt (metadata : Except String (Option Auth)) (storage : Except String ProposalStore) :
    ProposalStore :=
  match authAt metadata, storage with
  | some _, .ok store => store
  | _, _ => ⟨[], .nil⟩

theorem queueAt_evm {metadata : Except String (Option Auth)}
    {storage : Except String ProposalStore} {auth : Auth} (h : metadata = .ok (some auth))
    (hevm : isEvmEcdsa auth = true) : queueAt metadata storage = ⟨[], .nil⟩ := by
  unfold queueAt
  rw [h, authAt_evm hevm]

theorem queueAt_some {metadata : Except String (Option Auth)} {storage : Except String ProposalStore}
    {auth : Auth} {store : ProposalStore} (h : authAt metadata = some auth)
    (hstore : storage = .ok store) : queueAt metadata storage = store := by
  unfold queueAt
  rw [h, hstore]

variable {Instant Stamp : Type} {prims : Primitives Instant} {secret : List UInt8}
  {columns : Columns Instant Stamp} {limits : Nat → Option String}

/-! ## The proposals of an account -/

section AccountProposals

variable [LinearOrder Text] {accountId : Text}

def accountProposalPosition (columns : Columns Instant Stamp) (c : AccountProposalCursor) :
    Intᵒᵈ ×ₗ Textᵒᵈ :=
  toLex (OrderDual.toDual (columns.nonce c.lastNonce), OrderDual.toDual c.lastCommitment)

/-- The filter of the read is the order of its columns. -/
theorem accountProposal_past (c : AccountProposalCursor) (r : ProposalRow) :
    (decide (columns.nonce r.proposal.nonce < columns.nonce c.lastNonce) ||
      (decide (r.proposal.nonce = c.lastNonce) && decide (r.commitment < c.lastCommitment))) = true ↔
      accountProposalPosition columns c < accountProposalKey columns r := by
  rw [accountProposalPosition, accountProposalKey, Prod.Lex.toLex_lt_toLex]
  simp only [Bool.or_eq_true, Bool.and_eq_true, decide_eq_true_eq, OrderDual.toDual_lt_toDual,
    OrderDual.toDual_inj]
  constructor
  · rintro (hnonce | ⟨hnonce, hcommitment⟩)
    · exact .inl hnonce
    · exact .inr ⟨by rw [hnonce], hcommitment⟩
  · rintro (hnonce | ⟨hnonce, hcommitment⟩)
    · exact .inl hnonce
    · exact .inr ⟨(columns.nonce_inj hnonce).symm, hcommitment⟩

theorem isPage_listAccountProposalsPaged (columns : Columns Instant Stamp) (store : ProposalStore)
    (accountId : Text) (n : Nat) (p : Option AccountProposalCursor) :
    IsPage (accountProposalKey columns) n
      (store.rows.filter fun r =>
        decide (r.accountId = accountId) && r.proposal.status.kind == .pending)
      (p.map (accountProposalPosition columns))
      (listAccountProposalsPaged columns store accountId n p) := by
  have hne : (store.rows.filter fun r =>
      decide (r.accountId = accountId) && r.proposal.status.kind == .pending).Pairwise fun a b =>
      accountProposalKey columns a ≠ accountProposalKey columns b := by
    refine List.Pairwise.imp_of_mem ?_ (store.unique.sublist List.filter_sublist)
    intro a b ha hb hne hkey
    have haccount : ∀ {r}, r ∈ store.rows.filter (fun r =>
        decide (r.accountId = accountId) && r.proposal.status.kind == .pending) →
        r.accountId = accountId := fun hr =>
      of_decide_eq_true (Bool.and_eq_true_iff.mp (List.mem_filter.mp hr).2).1
    obtain ⟨-, hcommitment⟩ := Prod.mk.inj (toLex.injective hkey)
    exact hne ((haccount ha).trans (haccount hb).symm) (OrderDual.toDual.injective hcommitment)
  exact isPage_read hne (fun r => all_iff_after accountProposal_past r) (fun a b => rfl) n

/-- The proposal queue of an account at each request. -/
def accountProposalsFeed (prims : Primitives Instant) (secret : List UInt8)
    (columns : Columns Instant Stamp) (accountId : Text)
    (metadata : Nat → Except String (Option Auth)) (storage : Nat → Except String ProposalStore)
    (limits : Nat → Option String) (j : Nat) (token : Option String) :
    Except FeedError (PagedResult DashboardProposalEntry) :=
  handle prims secret .accountProposals
    (listAccountProposals prims secret columns accountId (metadata j) (storage j)) (limits j) token

/-- What an answer of the service is made of. -/
theorem listAccountProposals_ok {metadata : Except String (Option Auth)}
    {storage : Except String ProposalStore} {limit : Nat} {cursor : Option (Cursor Instant)}
    {answer : PagedResult DashboardProposalEntry}
    (h : listAccountProposals prims secret columns accountId metadata storage limit cursor =
      .ok answer) (hlimit : limit ≤ maxLimit) :
    (∃ auth, metadata = .ok (some auth) ∧ isEvmEcdsa auth = true ∧ answer = ⟨[], none⟩) ∨
    ∃ auth s, authAt metadata = some auth ∧ storage = .ok s ∧
      let records := listAccountProposalsPaged columns s accountId (limit + 1)
        (cursor.bind accountProposalCursor)
      answer.items = (records.take limit).filterMap
        (fun r => DashboardProposalEntry.fromRecord r auth) ∧
      answer.next =
        if limit < records.length then
          ((records.take limit).filterMap
            (fun r => DashboardProposalEntry.fromRecord r auth)).getLast?.map fun last =>
              Cursor.encode prims (.accountProposals last.nonce last.commitment) secret
        else none := by
  unfold listAccountProposals at h
  split at h
  · cases h
  split at h
  · cases h
  · cases h
  next auth =>
  by_cases hevm : isEvmEcdsa auth = true
  · rw [if_pos hevm] at h
    exact .inl ⟨auth, rfl, hevm, (Except.ok.inj h).symm⟩
  rw [if_neg hevm] at h
  split at h
  · cases h
  next s =>
  refine .inr ⟨auth, s, authAt_miden (Bool.eq_false_iff.mpr hevm), rfl, ?_⟩
  rw [pageSize_eq hlimit] at h
  have hshown : ∀ r ∈ listAccountProposalsPaged columns s accountId (limit + 1)
      (cursor.bind accountProposalCursor), (DashboardProposalEntry.fromRecord r auth).isSome := by
    intro r hr
    have hrow := ((isPage_listAccountProposalsPaged columns s accountId _ _).mem r hr).1
    exact isSome_fromRecord.mpr (eq_of_beq (Bool.and_eq_true_iff.mp (List.mem_filter.mp hrow).2).2)
  obtain rfl := Except.ok.inj h
  rw [take_filterMap hshown, length_filterMap_eq hshown]
  refine ⟨rfl, ?_⟩
  simp only [decide_eq_true_eq]

theorem listAccountProposalsPaged_nil (n : Nat) (p : Option AccountProposalCursor) :
    listAccountProposalsPaged columns ⟨[], .nil⟩ accountId n p = [] := by
  simp [listAccountProposalsPaged]

theorem accountProposals_pages (prims : Primitives Instant) (secret : List UInt8)
    (columns : Columns Instant Stamp) (accountId : Text)
    (metadata : Nat → Except String (Option Auth)) (storage : Nat → Except String ProposalStore) :
    Pages prims secret .accountProposals
      (fun j => listAccountProposals prims secret columns accountId (metadata j) (storage j))
      (accountProposalKey columns)
      (fun j => (queueAt (metadata j) (storage j)).rows.filter fun r =>
        decide (r.accountId = accountId) && r.proposal.status.kind == .pending)
      (fun j => listAccountProposalsPaged columns (queueAt (metadata j) (storage j)) accountId)
      accountProposalCursor (accountProposalPosition columns)
      (fun r => some (.accountProposals r.proposal.nonce r.commitment))
      (fun j r => (authAt (metadata j)).bind (DashboardProposalEntry.fromRecord r)) where
  page := fun j n p => isPage_listAccountProposalsPaged columns _ accountId n p
  minted := by
    intro r c hc
    obtain rfl := Option.some.inj hc
    exact ⟨rfl, rfl⟩
  items := by
    intro j limit cursor answer hanswer hlimit
    obtain ⟨auth, hmetadata, hevm, rfl⟩ | ⟨auth, s, hauth, hstore, hitems, -⟩ :=
      listAccountProposals_ok hanswer hlimit
    · rw [queueAt_evm hmetadata hevm, listAccountProposalsPaged_nil, List.take_nil,
        List.filterMap_nil]
    · rw [queueAt_some hauth hstore, hauth]
      exact hitems
  next := by
    intro j limit cursor answer hanswer hpos hlimit hmore
    obtain ⟨auth, hmetadata, hevm, rfl⟩ | ⟨auth, s, hauth, hstore, -, hnext⟩ :=
      listAccountProposals_ok hanswer hlimit
    · rw [queueAt_evm hmetadata hevm, listAccountProposalsPaged_nil] at hmore
      exact absurd hmore (Nat.not_lt_zero _)
    · rw [queueAt_some hauth hstore] at hmore ⊢
      obtain ⟨r, hlast⟩ := getLast?_take hpos hmore
      have hrow := ((isPage_listAccountProposalsPaged columns s accountId _ _).mem r
        (List.mem_of_mem_take (List.mem_of_getLast? hlast))).1
      have hkind := eq_of_beq (Bool.and_eq_true_iff.mp (List.mem_filter.mp hrow).2).2
      have hsome : (DashboardProposalEntry.fromRecord r auth).isSome := isSome_fromRecord.mpr hkind
      obtain ⟨e, he⟩ := Option.isSome_iff_exists.mp hsome
      obtain ⟨-, hcommitment, hnonce, -⟩ := fromRecord_fields he
      refine ⟨r, _, hlast, rfl, ?_⟩
      rw [hnext, if_pos hmore, getLast?_filterMap hlast he, Option.map_some, hnonce, hcommitment]
  ends := by
    intro j limit cursor answer hanswer hlimit hmore
    obtain ⟨auth, -, -, rfl⟩ | ⟨auth, s, hauth, hstore, -, hnext⟩ :=
      listAccountProposals_ok hanswer hlimit
    · rfl
    · rw [queueAt_some hauth hstore] at hmore
      rw [hnext, if_neg hmore]

/-- A request that is answered found an EVM account, or read the store. -/
theorem queue_of_answered {metadata : Nat → Except String (Option Auth)}
    {storage : Nat → Except String ProposalStore}
    {reading : Reading (accountProposalsFeed prims secret columns accountId metadata storage limits)}
    {j : Nat} (h : reading.answered j = true) :
    (∃ auth, metadata j = .ok (some auth) ∧ isEvmEcdsa auth = true ∧ reading.items j = []) ∨
    ∃ auth store, authAt (metadata j) = some auth ∧ storage j = .ok store := by
  obtain ⟨answer, hanswer⟩ := Reading.answered_iff.mp h
  obtain ⟨cursor, -, -, hmax, hservice⟩ := service_of_handle
    (fun j => listAccountProposals prims secret columns accountId (metadata j) (storage j)) hanswer
  obtain ⟨auth, hmetadata, hevm, rfl⟩ | ⟨auth, store, hauth, hstore, -⟩ :=
    listAccountProposals_ok hservice hmax
  · refine .inl ⟨auth, hmetadata, hevm, ?_⟩
    unfold Reading.items Reading.answer
    rw [hanswer]
  · exact .inr ⟨auth, store, hauth, hstore⟩

/-- A reading of an account's queue shows the proposals by nonce and commitment, both
    descending, none twice and each as it was pending; at its end it has shown each that was
    pending throughout, where the account is no EVM account. -/
theorem account_proposals_read_once {metadata : Nat → Except String (Option Auth)}
    {storage : Nat → Except String ProposalStore}
    (reading : Reading (accountProposalsFeed prims secret columns accountId metadata storage limits))
    {last : Nat} (hgoes : reading.GoesOn last) :
    ((reading.entries (last + 1)).Pairwise fun a b =>
      columns.nonce b.nonce < columns.nonce a.nonce ∨
        (a.nonce = b.nonce ∧ b.commitment < a.commitment)) ∧
    (∀ j, ∀ e ∈ reading.items j, ∃ auth store, authAt (metadata j) = some auth ∧
      storage j = .ok store ∧ ∃ r ∈ store.rows, r.accountId = accountId ∧
        DashboardProposalEntry.fromRecord r auth = some e) ∧
    (reading.EndsAt last → ∀ (n : Nonce) (commitment : Text),
      (∀ j ≤ last, ∀ found, metadata j = .ok found → ∃ auth, found = some auth ∧
        isEvmEcdsa auth = false) →
      (∀ j ≤ last, ∀ store, storage j = .ok store → ∃ r ∈ store.rows, r.accountId = accountId ∧
        r.commitment = commitment ∧ r.proposal.nonce = n ∧ r.proposal.status.kind = .pending) →
      ∃ e ∈ reading.entries (last + 1), e.nonce = n ∧ e.commitment = commitment) := by
  have hpages := accountProposals_pages prims secret columns accountId metadata storage
  have hserves := serves hpages limits
  have hkey : ∀ (j : Nat) (r : ProposalRow) (e : DashboardProposalEntry),
      (authAt (metadata j)).bind (DashboardProposalEntry.fromRecord r) = some e →
      (toLex (OrderDual.toDual (columns.nonce e.nonce), OrderDual.toDual e.commitment) :
        Intᵒᵈ ×ₗ Textᵒᵈ) = accountProposalKey columns r := by
    intro j r e he
    obtain ⟨auth, -, hentry⟩ := Option.bind_eq_some_iff.mp he
    obtain ⟨-, hcommitment, hnonce, -⟩ := fromRecord_fields hentry
    rw [hcommitment, hnonce, accountProposalKey]
  refine ⟨?_, ?_, ?_⟩
  · refine (reading.sorted hserves hkey hgoes).imp ?_
    intro a b hlt
    rw [Prod.Lex.toLex_lt_toLex] at hlt
    obtain hnonce | ⟨hnonce, hcommitment⟩ := hlt
    · exact .inl hnonce
    · exact .inr ⟨columns.nonce_inj (OrderDual.toDual.injective hnonce), hcommitment⟩
  · intro j e he
    obtain ⟨hdone, r, hr, hentry⟩ := reading.row_of_item hserves he
    obtain ⟨-, -, -, hnil⟩ | ⟨auth, store, hauth, hstore⟩ := queue_of_answered hdone
    · rw [hnil] at he
      cases he
    · rw [queueAt_some hauth hstore] at hr
      rw [hauth] at hentry
      obtain ⟨hin, hshown⟩ := List.mem_filter.mp hr
      exact ⟨auth, store, hauth, hstore, r, hin,
        of_decide_eq_true (Bool.and_eq_true_iff.mp hshown).1, hentry⟩
  · intro hends n commitment hmiden hthere
    have hread : ∀ j ≤ last, reading.answered j = true →
        ∃ auth store, authAt (metadata j) = some auth ∧ storage j = .ok store := by
      intro j hj hdone
      obtain ⟨auth, hmetadata, hevm, -⟩ | hread := queue_of_answered hdone
      · obtain ⟨auth', hfound, hmiden'⟩ := hmiden j hj _ hmetadata
        rw [← Option.some.inj hfound, hevm] at hmiden'
        cases hmiden'
      · exact hread
    have hrows : ∀ j ≤ last, reading.answered j = true →
        ∃ r ∈ (queueAt (metadata j) (storage j)).rows.filter (fun r =>
          decide (r.accountId = accountId) && r.proposal.status.kind == .pending),
          accountProposalKey columns r =
            toLex (OrderDual.toDual (columns.nonce n), OrderDual.toDual commitment) := by
      intro j hj hdone
      obtain ⟨auth, store, hauth, hstore⟩ := hread j hj hdone
      obtain ⟨r, hr, haccount, hcommitment, hnonce, hkind⟩ := hthere j hj store hstore
      rw [queueAt_some hauth hstore]
      refine ⟨r, List.mem_filter.mpr ⟨hr, ?_⟩, ?_⟩
      · rw [Bool.and_eq_true_iff, decide_eq_true_eq]
        exact ⟨haccount, beq_iff_eq.mpr hkind⟩
      · rw [accountProposalKey, hnonce, hcommitment]
    obtain ⟨e, he, hkeyed⟩ := reading.covers hserves hkey hgoes hends hrows (by
      intro j hj hdone r hr _
      obtain ⟨auth, store, hauth, -⟩ := hread j hj hdone
      rw [hauth]
      exact isSome_fromRecord.mpr
        (eq_of_beq (Bool.and_eq_true_iff.mp (List.mem_filter.mp hr).2).2))
    obtain ⟨hnonce, hcommitment⟩ := Prod.mk.inj (toLex.injective hkeyed)
    exact ⟨e, he, columns.nonce_inj (OrderDual.toDual.injective hnonce),
      OrderDual.toDual.injective hcommitment⟩

end AccountProposals

/-! A queue that cannot be read at the first request and holds one proposal from then on. -/

/-- Texts in the order of their characters. -/
@[reducible] def textOrder : LinearOrder Text := LinearOrder.lift' Text.val fun _ _ => Text.ext

def oneProposal : ProposalRow where
  accountId := oneAccount
  commitment := ⟨"0xcommit", by decide⟩
  proposal := ⟨7, "0xprev", none, "", .pending 12 "0xproposer" []⟩
  originatingTimestamp := "2026-05-08T12:00:00Z"

def oneProposalStorage : Nat → Except String ProposalStore
  | 0 => .error "Failed to get connection: timed out"
  | _ + 1 => .ok ⟨[oneProposal], List.pairwise_singleton _ _⟩

def oneAuth : Auth := .midenFalconRpo ["0xcosigner"]

def oneQueueFeed : Nat → Option String → Except FeedError (PagedResult DashboardProposalEntry) :=
  letI := textOrder
  accountProposalsFeed unitPrimitives [] Columns.filesystem oneAccount (fun _ => .ok (some oneAuth))
    oneProposalStorage (fun _ => none)

theorem oneQueueFeed_answer (j : Nat) :
    oneQueueFeed (j + 1) none =
      .ok ⟨[oneProposal].filterMap fun r => DashboardProposalEntry.fromRecord r oneAuth, none⟩ := by
  let := textOrder
  have hread : listAccountProposalsPaged (Columns.filesystem : Columns Unit Unit)
      ⟨[oneProposal], List.pairwise_singleton _ _⟩ oneAccount (pageSize 50) none = [oneProposal] := by
    have hshown : (decide (oneProposal.accountId = oneAccount) &&
        oneProposal.proposal.status.kind == .pending) = true := by decide
    simp [listAccountProposalsPaged, hshown, pageSize]
  simp only [oneQueueFeed, accountProposalsFeed, handle, parseLimit, parseCursor, defaultLimit,
    listAccountProposals, Option.any_none, oneProposalStorage, Option.bind_none, hread]
  rfl

def oneQueueReading : Reading oneQueueFeed where
  sent := fun _ => none
  first := nothing_sent
  step := by
    intro j
    cases j with
    | zero => rfl
    | succ j => rw [oneQueueFeed_answer]

theorem account_proposals_read_once_past_failure :
    ∃ e ∈ oneQueueReading.entries 2, e.nonce = 7 ∧ e.commitment = oneProposal.commitment := by
  let := textOrder
  have hgoes : oneQueueReading.GoesOn 1 := by
    intro j hj answer hanswer
    obtain rfl : j = 0 := by omega
    cases hanswer
  refine (account_proposals_read_once oneQueueReading hgoes).2.2
    ⟨_, oneQueueFeed_answer 0, rfl⟩ 7 oneProposal.commitment ?_ ?_
  · intro j _ found hfound
    exact ⟨oneAuth, (Except.ok.inj hfound).symm, rfl⟩
  · intro j _ store hstore
    cases j with
    | zero => cases hstore
    | succ j =>
      obtain rfl := Except.ok.inj hstore
      exact ⟨oneProposal, List.mem_singleton_self _, rfl, rfl, rfl, rfl⟩

/-! ## The deltas of all accounts -/

section GlobalDeltas

variable [LinearOrder Text] [LinearOrder Stamp] {parse : String → Except String Instant}
  {minUtc : Instant}

def globalDeltaPosition (columns : Columns Instant Stamp) (c : GlobalDeltaCursor Instant) :
    Stampᵒᵈ ×ₗ Text ×ₗ Int :=
  toLex (OrderDual.toDual (columns.stamp c.lastStatusTimestamp),
    toLex (c.lastAccountId, columns.nonce c.lastNonce))

/-- The filter of the read is the order of its columns. -/
theorem afterGlobalDelta_iff (c : GlobalDeltaCursor Instant) (r : GlobalDeltaRow) :
    afterGlobalDelta columns parse minUtc c r = true ↔
      globalDeltaPosition columns c < globalDeltaKey columns parse minUtc r := by
  rw [globalDeltaPosition, globalDeltaKey, Prod.Lex.toLex_lt_toLex, Prod.Lex.toLex_lt_toLex]
  simp only [afterGlobalDelta, Bool.or_eq_true, Bool.and_eq_true, decide_eq_true_eq,
    OrderDual.toDual_lt_toDual, OrderDual.toDual_inj]
  constructor
  · rintro ((hts | ⟨hts, hid⟩) | ⟨⟨hts, hid⟩, hnonce⟩)
    · exact .inl hts
    · exact .inr ⟨hts.symm, .inl hid⟩
    · exact .inr ⟨hts.symm, .inr ⟨hid.symm, hnonce⟩⟩
  · rintro (hts | ⟨hts, hid | ⟨hid, hnonce⟩⟩)
    · exact .inl (.inl hts)
    · exact .inl (.inr ⟨hts.symm, hid⟩)
    · exact .inr ⟨⟨hts.symm, hid.symm⟩, hnonce⟩

theorem isPage_listGlobalDeltasPaged (columns : Columns Instant Stamp)
    (parse : String → Except String Instant) (minUtc : Instant) (store : GlobalDeltaStore)
    (statusFilter : Option (List DeltaStatusKind)) (n : Nat)
    (p : Option (GlobalDeltaCursor Instant)) :
    IsPage (globalDeltaKey columns parse minUtc) n
      (store.rows.filter fun r => inDeltaFeed statusFilter r.delta.status.kind)
      (p.map (globalDeltaPosition columns))
      (listGlobalDeltasPaged columns parse minUtc store n p statusFilter) := by
  have hne : (store.rows.filter fun r =>
      inDeltaFeed statusFilter r.delta.status.kind).Pairwise fun a b =>
      globalDeltaKey columns parse minUtc a ≠ globalDeltaKey columns parse minUtc b := by
    refine (store.unique.imp ?_).sublist List.filter_sublist
    intro a b hne hkey
    obtain ⟨-, hrest⟩ := Prod.mk.inj (toLex.injective hkey)
    obtain ⟨hid, hnonce⟩ := Prod.mk.inj (toLex.injective hrest)
    exact hne hid (columns.nonce_inj hnonce)
  exact isPage_read hne (fun r => all_iff_after afterGlobalDelta_iff r) (fun a b => rfl) n

def globalDeltasAt : Except String GlobalDeltaStore → GlobalDeltaStore
  | .ok store => store
  | .error _ => ⟨[], .nil⟩

/-- The global delta feed at each request, under one filter. -/
def globalDeltasFeed (prims : Primitives Instant) (secret : List UInt8)
    (columns : Columns Instant Stamp) (parse : String → Except String Instant) (minUtc : Instant)
    (inventory : Nat → Inventory) (storage : Nat → Except String GlobalDeltaStore)
    (statusFilter : Option (List DashboardDeltaStatus)) (limits : Nat → Option String) (j : Nat)
    (token : Option String) : Except FeedError (PagedResult DashboardGlobalDeltaEntry) :=
  handle prims secret .globalDeltas
    (listGlobalDeltas prims secret columns parse minUtc (inventory j) (storage j) statusFilter)
    (limits j) token

/-- What an answer of the service is made of. -/
theorem listGlobalDeltas_ok {inventory : Inventory}
    {storage : Except String GlobalDeltaStore} {statusFilter : Option (List DashboardDeltaStatus)}
    {limit : Nat} {cursor : Option (Cursor Instant)}
    {answer : PagedResult DashboardGlobalDeltaEntry}
    (h : listGlobalDeltas prims secret columns parse minUtc inventory storage statusFilter limit
      cursor = .ok answer) (hlimit : limit ≤ maxLimit) :
    ∃ s, storage = .ok s ∧
      let rows := listGlobalDeltasPaged columns parse minUtc s (limit + 1)
        (cursor.bind globalDeltaCursor) (statusFilter.map (·.map mapStatusFilter))
      answer.items = (rows.take limit).filterMap DashboardGlobalDeltaEntry.entryFrom ∧
      (¬limit < rows.length → answer.next = none) ∧
      ∀ r, (rows.take limit).getLast? = some r → limit < rows.length →
        ∃ ts, parse r.statusTimestamp = .ok ts ∧ answer.next =
          some (Cursor.encode prims (.globalDeltas ts r.accountId r.delta.nonce) secret) := by
  unfold listGlobalDeltas at h
  split at h
  · cases h
  split at h
  · cases h
  split at h
  · cases h
  next s =>
  refine ⟨s, rfl, ?_⟩
  simp only [pageSize_eq hlimit] at h
  have hshown : ∀ r ∈ listGlobalDeltasPaged columns parse minUtc s (limit + 1)
      (cursor.bind globalDeltaCursor) (statusFilter.map (·.map mapStatusFilter)),
      (DashboardGlobalDeltaEntry.entryFrom r).isSome := by
    intro r hr
    have hrow := ((isPage_listGlobalDeltasPaged columns parse minUtc s _ _ _).mem r hr).1
    exact isSome_entryFrom (List.mem_filter.mp hrow).2
  rw [take_filterMap hshown] at h
  simp only [decide_eq_true_eq] at h
  split at h
  next hmore =>
    split at h
    next hlast =>
      obtain rfl := Except.ok.inj h
      refine ⟨rfl, fun hshort => absurd hmore hshort, ?_⟩
      intro r hr _
      obtain ⟨e, he⟩ := Option.isSome_iff_exists.mp
        (hshown r (List.mem_of_mem_take (List.mem_of_getLast? hr)))
      rw [getLast?_filterMap hr he] at hlast
      cases hlast
    next last hlast =>
      split at h
      · cases h
      next ts hts =>
      obtain rfl := Except.ok.inj h
      refine ⟨rfl, fun hshort => absurd hmore hshort, ?_⟩
      intro r hr _
      obtain ⟨e, he⟩ := Option.isSome_iff_exists.mp
        (hshown r (List.mem_of_mem_take (List.mem_of_getLast? hr)))
      rw [getLast?_filterMap hr he] at hlast
      obtain rfl := Option.some.inj hlast
      obtain ⟨haccount, hnonce, htimestamp⟩ := entryFrom_fields he
      rw [htimestamp] at hts
      exact ⟨ts, hts, by rw [haccount, hnonce]⟩
  next hmore =>
    obtain rfl := Except.ok.inj h
    exact ⟨rfl, fun _ => rfl, fun r _ hlong => absurd hlong hmore⟩

/-- The cursor of a row, where its timestamp denotes an instant. -/
def mintGlobalDelta (parse : String → Except String Instant) (r : GlobalDeltaRow) :
    Option (Cursor Instant) :=
  (parse r.statusTimestamp).toOption.map fun ts => .globalDeltas ts r.accountId r.delta.nonce

theorem globalDeltas_pages (prims : Primitives Instant) (secret : List UInt8)
    (columns : Columns Instant Stamp) (parse : String → Except String Instant) (minUtc : Instant)
    (inventory : Nat → Inventory) (storage : Nat → Except String GlobalDeltaStore)
    (statusFilter : Option (List DashboardDeltaStatus)) :
    Pages prims secret .globalDeltas
      (fun j => listGlobalDeltas prims secret columns parse minUtc (inventory j) (storage j)
        statusFilter)
      (globalDeltaKey columns parse minUtc)
      (fun j => (globalDeltasAt (storage j)).rows.filter fun r =>
        inDeltaFeed (statusFilter.map (·.map mapStatusFilter)) r.delta.status.kind)
      (fun j n p => listGlobalDeltasPaged columns parse minUtc (globalDeltasAt (storage j)) n p
        (statusFilter.map (·.map mapStatusFilter)))
      globalDeltaCursor (globalDeltaPosition columns) (mintGlobalDelta parse)
      (fun _ => DashboardGlobalDeltaEntry.entryFrom) where
  page := fun j n p => isPage_listGlobalDeltasPaged columns parse minUtc _ _ n p
  minted := by
    intro r c hc
    obtain ⟨ts, hts, rfl⟩ := Option.map_eq_some_iff.mp hc
    refine ⟨rfl, ?_⟩
    rw [globalDeltaKey, statusStamp, hts]
    rfl
  items := by
    intro j limit cursor answer hanswer hlimit
    obtain ⟨s, hstore, hitems, -, -⟩ := listGlobalDeltas_ok hanswer hlimit
    rw [hstore]
    exact hitems
  next := by
    intro j limit cursor answer hanswer hpos hlimit hmore
    obtain ⟨s, hstore, -, -, hnext⟩ := listGlobalDeltas_ok hanswer hlimit
    simp only [hstore, globalDeltasAt] at hmore ⊢
    obtain ⟨r, hlast⟩ := getLast?_take hpos hmore
    obtain ⟨ts, hts, htoken⟩ := hnext r hlast hmore
    refine ⟨r, _, hlast, ?_, htoken⟩
    rw [mintGlobalDelta, hts]
    rfl
  ends := by
    intro j limit cursor answer hanswer hlimit hmore
    obtain ⟨s, hstore, -, hends, -⟩ := listGlobalDeltas_ok hanswer hlimit
    simp only [hstore, globalDeltasAt] at hmore
    exact hends hmore

/-- A request that is answered read the store. -/
theorem stored_of_globalDeltas {inventory : Nat → Inventory}
    {storage : Nat → Except String GlobalDeltaStore}
    {statusFilter : Option (List DashboardDeltaStatus)}
    {reading : Reading (globalDeltasFeed prims secret columns parse minUtc inventory storage
      statusFilter limits)} {j : Nat} (h : reading.answered j = true) :
    ∃ store, storage j = .ok store := by
  obtain ⟨answer, hanswer⟩ := Reading.answered_iff.mp h
  obtain ⟨cursor, -, -, hmax, hservice⟩ := service_of_handle
    (fun j => listGlobalDeltas prims secret columns parse minUtc (inventory j) (storage j)
      statusFilter) hanswer
  obtain ⟨store, hstore, -⟩ := listGlobalDeltas_ok hservice hmax
  exact ⟨store, hstore⟩

/-- A reading of the global delta feed shows the deltas newest first, those of one instant by
    account and nonce, and none twice at one timestamp; at its end it has shown each that was
    in the feed throughout and kept its timestamp. -/
theorem global_deltas_read_once {inventory : Nat → Inventory}
    {storage : Nat → Except String GlobalDeltaStore}
    {statusFilter : Option (List DashboardDeltaStatus)}
    (reading : Reading (globalDeltasFeed prims secret columns parse minUtc inventory storage
      statusFilter limits)) {last : Nat} (hgoes : reading.GoesOn last) :
    ((reading.entries (last + 1)).Pairwise fun a b =>
      let before := statusStamp columns parse minUtc a.statusTimestamp
      let after := statusStamp columns parse minUtc b.statusTimestamp
      after < before ∨ (before = after ∧ (a.accountId < b.accountId ∨
        (a.accountId = b.accountId ∧ columns.nonce a.nonce < columns.nonce b.nonce)))) ∧
    (∀ j, ∀ e ∈ reading.items j, ∃ store, storage j = .ok store ∧
      ∃ r ∈ store.rows, DashboardGlobalDeltaEntry.entryFrom r = some e) ∧
    (reading.EndsAt last → ∀ (accountId : Text) (n : Nonce) (stamp : Stamp),
      (∀ j ≤ last, ∀ store, storage j = .ok store →
        ∃ r ∈ store.rows, r.accountId = accountId ∧ r.delta.nonce = n ∧
          statusStamp columns parse minUtc r.statusTimestamp = stamp ∧
          inDeltaFeed (statusFilter.map (·.map mapStatusFilter)) r.delta.status.kind = true) →
      ∃ e ∈ reading.entries (last + 1), e.accountId = accountId ∧ e.nonce = n) := by
  have hpages := globalDeltas_pages prims secret columns parse minUtc inventory storage statusFilter
  have hserves := serves hpages limits
  have hkey : ∀ (j : Nat) (r : GlobalDeltaRow) (e : DashboardGlobalDeltaEntry),
      DashboardGlobalDeltaEntry.entryFrom r = some e →
      (toLex (OrderDual.toDual (statusStamp columns parse minUtc e.statusTimestamp),
        toLex (e.accountId, columns.nonce e.nonce)) : Stampᵒᵈ ×ₗ Text ×ₗ Int) =
        globalDeltaKey columns parse minUtc r := by
    intro j r e he
    obtain ⟨haccount, hnonce, htimestamp⟩ := entryFrom_fields he
    rw [haccount, hnonce, htimestamp, globalDeltaKey]
  refine ⟨?_, ?_, ?_⟩
  · refine (reading.sorted hserves hkey hgoes).imp ?_
    intro a b hlt
    rw [Prod.Lex.toLex_lt_toLex, Prod.Lex.toLex_lt_toLex] at hlt
    exact hlt.imp id (And.imp_left fun hsame => OrderDual.toDual.injective hsame)
  · intro j e he
    obtain ⟨hdone, r, hr, hentry⟩ := reading.row_of_item hserves he
    obtain ⟨store, hstore⟩ := stored_of_globalDeltas hdone
    rw [hstore] at hr
    exact ⟨store, hstore, r, (List.mem_filter.mp hr).1, hentry⟩
  · intro hends accountId n stamp hthere
    have hrows : ∀ j ≤ last, reading.answered j = true →
        ∃ r ∈ (globalDeltasAt (storage j)).rows.filter (fun r =>
          inDeltaFeed (statusFilter.map (·.map mapStatusFilter)) r.delta.status.kind),
          globalDeltaKey columns parse minUtc r =
            toLex (OrderDual.toDual stamp, toLex (accountId, columns.nonce n)) := by
      intro j hj hdone
      obtain ⟨store, hstore⟩ := stored_of_globalDeltas hdone
      obtain ⟨r, hr, haccount, hnonce, hstamp, hin⟩ := hthere j hj store hstore
      rw [hstore]
      refine ⟨r, List.mem_filter.mpr ⟨hr, hin⟩, ?_⟩
      rw [globalDeltaKey, hstamp, haccount, hnonce]
    obtain ⟨e, he, hkeyed⟩ := reading.covers hserves hkey hgoes hends hrows
      (fun j _ _ r hr _ => isSome_entryFrom (List.mem_filter.mp hr).2)
    obtain ⟨-, hrest⟩ := Prod.mk.inj (toLex.injective hkeyed)
    obtain ⟨haccount, hnonce⟩ := Prod.mk.inj (toLex.injective hrest)
    exact ⟨e, he, haccount, columns.nonce_inj hnonce⟩

end GlobalDeltas

/-- The one instant of the feeds below. -/
def parseNoon (text : String) : Except String Unit :=
  if text = "2026-05-08T12:00:00Z" then .ok () else .error "input contains invalid characters"

def noonColumns : Columns Unit Int := Columns.postgres fun _ => 1778241600000000

def oneGlobalDelta : GlobalDeltaRow := ⟨oneAccount, oneDelta, "2026-05-08T12:00:00Z"⟩

def oneGlobalDeltaStorage : Nat → Except String GlobalDeltaStore
  | 0 => .error "Failed to get connection: timed out"
  | _ + 1 => .ok ⟨[oneGlobalDelta], List.pairwise_singleton _ _⟩

def oneGlobalDeltasFeed :
    Nat → Option String → Except FeedError (PagedResult DashboardGlobalDeltaEntry) :=
  letI := textOrder
  globalDeltasFeed unitPrimitives [] noonColumns parseNoon () (fun _ => ⟨false, .ok 1, 1⟩)
    oneGlobalDeltaStorage (some [.canonical]) (fun _ => none)

theorem oneGlobalDeltasFeed_answer (j : Nat) :
    oneGlobalDeltasFeed (j + 1) none =
      .ok ⟨[oneGlobalDelta].filterMap DashboardGlobalDeltaEntry.entryFrom, none⟩ := by
  let := textOrder
  have hread : listGlobalDeltasPaged noonColumns parseNoon ()
      ⟨[oneGlobalDelta], List.pairwise_singleton _ _⟩ (pageSize 50) none
      ((some [DashboardDeltaStatus.canonical]).map (·.map mapStatusFilter)) = [oneGlobalDelta] := by
    have hshown : (oneGlobalDelta.delta.status.kind != .pending &&
        ((some [DashboardDeltaStatus.canonical]).map (·.map mapStatusFilter)).all fun allowed =>
          allowed.contains oneGlobalDelta.delta.status.kind) = true := by decide
    simp only [listGlobalDeltasPaged, List.filter_cons_of_pos, hshown, List.filter_nil,
      Option.all_none, List.mergeSort_singleton]
    rfl
  simp only [oneGlobalDeltasFeed, globalDeltasFeed, handle, parseLimit, parseCursor, defaultLimit,
    listGlobalDeltas, Option.any_none, oneGlobalDeltaStorage, Option.bind_none, hread]
  rfl

def oneGlobalDeltasReading : Reading oneGlobalDeltasFeed where
  sent := fun _ => none
  first := nothing_sent
  step := by
    intro j
    cases j with
    | zero => rfl
    | succ j => rw [oneGlobalDeltasFeed_answer]

theorem global_deltas_read_once_past_failure :
    ∃ e ∈ oneGlobalDeltasReading.entries 2, e.accountId = oneAccount ∧ e.nonce = 7 := by
  let := textOrder
  have hgoes : oneGlobalDeltasReading.GoesOn 1 := by
    intro j hj answer hanswer
    obtain rfl : j = 0 := by omega
    cases hanswer
  refine (global_deltas_read_once oneGlobalDeltasReading hgoes).2.2
    ⟨_, oneGlobalDeltasFeed_answer 0, rfl⟩ oneAccount 7 1778241600000000 ?_
  intro j _ store hstore
  cases j with
  | zero => cases hstore
  | succ j =>
    obtain rfl := Except.ok.inj hstore
    exact ⟨oneGlobalDelta, List.mem_singleton_self _, rfl, rfl, rfl, by decide⟩

/-! ## The proposals of all accounts -/

section GlobalProposals

variable [LinearOrder Text] [LinearOrder Stamp] {parse : String → Except String Instant}
  {minUtc : Instant}

def globalProposalPosition (columns : Columns Instant Stamp) (c : GlobalProposalCursor Instant) :
    Stampᵒᵈ ×ₗ Text ×ₗ Int ×ₗ Text :=
  toLex (OrderDual.toDual (columns.stamp c.lastOriginatingTimestamp),
    toLex (c.lastAccountId, toLex (columns.nonce c.lastNonce, c.lastCommitment)))

/-- The filter of the read is the order of its columns. -/
theorem afterGlobalProposal_iff (c : GlobalProposalCursor Instant) (r : ProposalRow) :
    afterGlobalProposal columns parse minUtc c r = true ↔
      globalProposalPosition columns c < globalProposalKey columns parse minUtc r := by
  rw [globalProposalPosition, globalProposalKey, Prod.Lex.toLex_lt_toLex, Prod.Lex.toLex_lt_toLex,
    Prod.Lex.toLex_lt_toLex]
  simp only [afterGlobalProposal, Bool.or_eq_true, Bool.and_eq_true, decide_eq_true_eq,
    OrderDual.toDual_lt_toDual, OrderDual.toDual_inj]
  constructor
  · rintro (((hts | ⟨hts, hid⟩) | ⟨⟨hts, hid⟩, hnonce⟩) | ⟨⟨⟨hts, hid⟩, hnonce⟩, hcommitment⟩)
    · exact .inl hts
    · exact .inr ⟨hts.symm, .inl hid⟩
    · exact .inr ⟨hts.symm, .inr ⟨hid.symm, .inl hnonce⟩⟩
    · exact .inr ⟨hts.symm, .inr ⟨hid.symm, .inr ⟨by rw [hnonce], hcommitment⟩⟩⟩
  · rintro (hts | ⟨hts, hid | ⟨hid, hnonce | ⟨hnonce, hcommitment⟩⟩⟩)
    · exact .inl (.inl (.inl hts))
    · exact .inl (.inl (.inr ⟨hts.symm, hid⟩))
    · exact .inl (.inr ⟨⟨hts.symm, hid.symm⟩, hnonce⟩)
    · exact .inr ⟨⟨⟨hts.symm, hid.symm⟩, (columns.nonce_inj hnonce).symm⟩, hcommitment⟩

theorem isPage_listGlobalProposalsPaged (columns : Columns Instant Stamp)
    (parse : String → Except String Instant) (minUtc : Instant) (store : ProposalStore) (n : Nat)
    (p : Option (GlobalProposalCursor Instant)) :
    IsPage (globalProposalKey columns parse minUtc) n
      (store.rows.filter fun r => r.proposal.status.kind == .pending)
      (p.map (globalProposalPosition columns))
      (listGlobalProposalsPaged columns parse minUtc store n p) := by
  have hne : (store.rows.filter fun r => r.proposal.status.kind == .pending).Pairwise fun a b =>
      globalProposalKey columns parse minUtc a ≠ globalProposalKey columns parse minUtc b := by
    refine (store.unique.imp ?_).sublist List.filter_sublist
    intro a b hne hkey
    obtain ⟨-, hrest⟩ := Prod.mk.inj (toLex.injective hkey)
    obtain ⟨hid, hrest⟩ := Prod.mk.inj (toLex.injective hrest)
    obtain ⟨-, hcommitment⟩ := Prod.mk.inj (toLex.injective hrest)
    exact hne hid hcommitment
  exact isPage_read hne (fun r => all_iff_after afterGlobalProposal_iff r) (fun a b => rfl) n

def proposalsAt : Except String ProposalStore → ProposalStore
  | .ok store => store
  | .error _ => ⟨[], .nil⟩

/-- The global proposal feed at each request. -/
def globalProposalsFeed (prims : Primitives Instant) (secret : List UInt8)
    (columns : Columns Instant Stamp) (parse : String → Except String Instant) (minUtc : Instant)
    (inventory : Nat → Inventory) (storage : Nat → Except String ProposalStore)
    (metadata : Nat → Text → Except String (Option Auth)) (limits : Nat → Option String) (j : Nat)
    (token : Option String) : Except FeedError (PagedResult DashboardProposalEntry) :=
  handle prims secret .globalProposals
    (listGlobalProposals prims secret columns parse minUtc (inventory j) (storage j) (metadata j))
    (limits j) token

/-- What an answer of the service is made of. -/
theorem listGlobalProposals_ok {inventory : Inventory}
    {storage : Except String ProposalStore} {metadata : Text → Except String (Option Auth)}
    {limit : Nat} {cursor : Option (Cursor Instant)} {answer : PagedResult DashboardProposalEntry}
    (h : listGlobalProposals prims secret columns parse minUtc inventory storage metadata limit
      cursor = .ok answer) (hlimit : limit ≤ maxLimit) :
    ∃ s, storage = .ok s ∧
      let found := listGlobalProposalsPaged columns parse minUtc s (limit + 1)
        (cursor.bind globalProposalCursor)
      answer.items = (found.take limit).filterMap (shownProposal metadata) ∧
      (¬limit < found.length → answer.next = none) ∧
      ∀ r, (found.take limit).getLast? = some r → limit < found.length →
        ∃ ts, parse r.originatingTimestamp = .ok ts ∧ answer.next =
          some (Cursor.encode prims
            (.globalProposals ts r.accountId r.proposal.nonce r.commitment) secret) := by
  unfold listGlobalProposals at h
  split at h
  · cases h
  split at h
  · cases h
  split at h
  · cases h
  next s =>
  refine ⟨s, rfl, ?_⟩
  simp only [pageSize_eq hlimit, decide_eq_true_eq] at h
  split at h
  · cases h
  next entries hentries =>
  have hempty : CacheHolds metadata [] := by
    intro accountId slot hslot
    cases hslot
  have hshown := globalProposalEntries_ok hempty hentries
  split at h
  next hmore =>
    split at h
    next hlast =>
      obtain rfl := Except.ok.inj h
      refine ⟨hshown, fun hshort => absurd hmore hshort, ?_⟩
      intro r hr _
      rw [hr] at hlast
      cases hlast
    next anchor hlast =>
      split at h
      · cases h
      next ts hts =>
      obtain rfl := Except.ok.inj h
      refine ⟨hshown, fun hshort => absurd hmore hshort, ?_⟩
      intro r hr _
      rw [hr] at hlast
      obtain rfl := Option.some.inj hlast
      exact ⟨ts, hts, rfl⟩
  next hmore =>
    obtain rfl := Except.ok.inj h
    exact ⟨hshown, fun _ => rfl, fun r _ hlong => absurd hlong hmore⟩

/-- The cursor of a record, where its timestamp denotes an instant. -/
def mintGlobalProposal (parse : String → Except String Instant) (r : ProposalRow) :
    Option (Cursor Instant) :=
  (parse r.originatingTimestamp).toOption.map fun ts =>
    .globalProposals ts r.accountId r.proposal.nonce r.commitment

theorem globalProposals_pages (prims : Primitives Instant) (secret : List UInt8)
    (columns : Columns Instant Stamp) (parse : String → Except String Instant) (minUtc : Instant)
    (inventory : Nat → Inventory) (storage : Nat → Except String ProposalStore)
    (metadata : Nat → Text → Except String (Option Auth)) :
    Pages prims secret .globalProposals
      (fun j => listGlobalProposals prims secret columns parse minUtc (inventory j) (storage j)
        (metadata j))
      (globalProposalKey columns parse minUtc)
      (fun j => (proposalsAt (storage j)).rows.filter fun r =>
        r.proposal.status.kind == .pending)
      (fun j n p => listGlobalProposalsPaged columns parse minUtc (proposalsAt (storage j)) n p)
      globalProposalCursor (globalProposalPosition columns) (mintGlobalProposal parse)
      (fun j => shownProposal (metadata j)) where
  page := fun j n p => isPage_listGlobalProposalsPaged columns parse minUtc _ n p
  minted := by
    intro r c hc
    obtain ⟨ts, hts, rfl⟩ := Option.map_eq_some_iff.mp hc
    refine ⟨rfl, ?_⟩
    rw [globalProposalKey, statusStamp, hts]
    rfl
  items := by
    intro j limit cursor answer hanswer hlimit
    obtain ⟨s, hstore, hitems, -, -⟩ := listGlobalProposals_ok hanswer hlimit
    rw [hstore]
    exact hitems
  next := by
    intro j limit cursor answer hanswer hpos hlimit hmore
    obtain ⟨s, hstore, -, -, hnext⟩ := listGlobalProposals_ok hanswer hlimit
    simp only [hstore, proposalsAt] at hmore ⊢
    obtain ⟨r, hlast⟩ := getLast?_take hpos hmore
    obtain ⟨ts, hts, htoken⟩ := hnext r hlast hmore
    refine ⟨r, _, hlast, ?_, htoken⟩
    rw [mintGlobalProposal, hts]
    rfl
  ends := by
    intro j limit cursor answer hanswer hlimit hmore
    obtain ⟨s, hstore, -, hends, -⟩ := listGlobalProposals_ok hanswer hlimit
    simp only [hstore, proposalsAt] at hmore
    exact hends hmore

/-- A request that is answered read the store. -/
theorem stored_of_globalProposals {inventory : Nat → Inventory}
    {storage : Nat → Except String ProposalStore}
    {metadata : Nat → Text → Except String (Option Auth)}
    {reading : Reading (globalProposalsFeed prims secret columns parse minUtc inventory storage
      metadata limits)} {j : Nat} (h : reading.answered j = true) :
    ∃ store, storage j = .ok store := by
  obtain ⟨answer, hanswer⟩ := Reading.answered_iff.mp h
  obtain ⟨cursor, -, -, hmax, hservice⟩ := service_of_handle
    (fun j => listGlobalProposals prims secret columns parse minUtc (inventory j) (storage j)
      (metadata j)) hanswer
  obtain ⟨store, hstore, -⟩ := listGlobalProposals_ok hservice hmax
  exact ⟨store, hstore⟩

/-- A reading of the global proposal feed shows pending proposals newest first, those of
    one instant by account, nonce and commitment, none twice and none of an EVM account;
    though accounts are left out only after a page is cut, at its end it has shown each
    proposal that was pending throughout and whose account had a Miden authorization
    whenever the page was read. -/
theorem global_proposals_read_once {inventory : Nat → Inventory}
    {storage : Nat → Except String ProposalStore}
    {metadata : Nat → Text → Except String (Option Auth)}
    (reading : Reading (globalProposalsFeed prims secret columns parse minUtc inventory storage
      metadata limits)) {last : Nat} (hgoes : reading.GoesOn last) :
    ((reading.entries (last + 1)).Pairwise fun a b =>
      let before := statusStamp columns parse minUtc a.originatingTimestamp
      let after := statusStamp columns parse minUtc b.originatingTimestamp
      after < before ∨ (before = after ∧ (a.accountId < b.accountId ∨ (a.accountId = b.accountId ∧
        (columns.nonce a.nonce < columns.nonce b.nonce ∨
          (a.nonce = b.nonce ∧ a.commitment < b.commitment)))))) ∧
    (∀ j, ∀ e ∈ reading.items j, ∃ store auth, storage j = .ok store ∧
      metadata j e.accountId = .ok (some auth) ∧ isEvmEcdsa auth = false ∧
      ∃ r ∈ store.rows, DashboardProposalEntry.fromRecord r auth = some e) ∧
    (reading.EndsAt last → ∀ (accountId : Text) (n : Nonce) (commitment : Text) (stamp : Stamp),
      (∀ j ≤ last, ∃ auth, metadata j accountId = .ok (some auth) ∧ isEvmEcdsa auth = false) →
      (∀ j ≤ last, ∀ store, storage j = .ok store → ∃ r ∈ store.rows, r.accountId = accountId ∧
        r.proposal.nonce = n ∧ r.commitment = commitment ∧
        statusStamp columns parse minUtc r.originatingTimestamp = stamp ∧
        r.proposal.status.kind = .pending) →
      ∃ e ∈ reading.entries (last + 1),
        e.accountId = accountId ∧ e.nonce = n ∧ e.commitment = commitment) := by
  have hpages := globalProposals_pages prims secret columns parse minUtc inventory storage metadata
  have hserves := serves hpages limits
  have hkey : ∀ (j : Nat) (r : ProposalRow) (e : DashboardProposalEntry),
      shownProposal (metadata j) r = some e →
      (toLex (OrderDual.toDual (statusStamp columns parse minUtc e.originatingTimestamp),
        toLex (e.accountId, toLex (columns.nonce e.nonce, e.commitment))) :
        Stampᵒᵈ ×ₗ Text ×ₗ Int ×ₗ Text) = globalProposalKey columns parse minUtc r := by
    intro j r e he
    obtain ⟨auth, -, hentry⟩ := Option.bind_eq_some_iff.mp he
    obtain ⟨haccount, hcommitment, hnonce, htimestamp⟩ := fromRecord_fields hentry
    rw [haccount, hcommitment, hnonce, htimestamp, globalProposalKey]
  refine ⟨?_, ?_, ?_⟩
  · refine (reading.sorted hserves hkey hgoes).imp ?_
    intro a b hlt
    rw [Prod.Lex.toLex_lt_toLex, Prod.Lex.toLex_lt_toLex, Prod.Lex.toLex_lt_toLex] at hlt
    obtain hts | ⟨hts, hid | ⟨hid, hnonce | ⟨hnonce, hcommitment⟩⟩⟩ := hlt
    · exact .inl hts
    · exact .inr ⟨OrderDual.toDual.injective hts, .inl hid⟩
    · exact .inr ⟨OrderDual.toDual.injective hts, .inr ⟨hid, .inl hnonce⟩⟩
    · exact .inr ⟨OrderDual.toDual.injective hts,
        .inr ⟨hid, .inr ⟨columns.nonce_inj hnonce, hcommitment⟩⟩⟩
  · intro j e he
    obtain ⟨hdone, r, hr, hshown⟩ := reading.row_of_item hserves he
    obtain ⟨store, hstore⟩ := stored_of_globalProposals hdone
    obtain ⟨auth, hauth, hentry⟩ := Option.bind_eq_some_iff.mp hshown
    obtain ⟨haccount, -⟩ := fromRecord_fields hentry
    obtain ⟨hmetadata, hmiden⟩ := of_authAt hauth
    rw [hstore] at hr
    rw [haccount]
    exact ⟨store, auth, hstore, hmetadata, hmiden, r, (List.mem_filter.mp hr).1, hentry⟩
  · intro hends accountId n commitment stamp hmiden hthere
    have hrows : ∀ j ≤ last, reading.answered j = true →
        ∃ r ∈ (proposalsAt (storage j)).rows.filter (fun r =>
          r.proposal.status.kind == .pending), globalProposalKey columns parse minUtc r =
            toLex (OrderDual.toDual stamp,
              toLex (accountId, toLex (columns.nonce n, commitment))) := by
      intro j hj hdone
      obtain ⟨store, hstore⟩ := stored_of_globalProposals hdone
      obtain ⟨r, hr, haccount, hnonce, hcommitment, hstamp, hkind⟩ := hthere j hj store hstore
      rw [hstore]
      refine ⟨r, List.mem_filter.mpr ⟨hr, beq_iff_eq.mpr hkind⟩, ?_⟩
      rw [globalProposalKey, hstamp, haccount, hnonce, hcommitment]
    have hshown : ∀ j ≤ last, reading.answered j = true →
        ∀ r ∈ (proposalsAt (storage j)).rows.filter (fun r =>
          r.proposal.status.kind == .pending), globalProposalKey columns parse minUtc r =
            toLex (OrderDual.toDual stamp, toLex (accountId, toLex (columns.nonce n, commitment))) →
        (shownProposal (metadata j) r).isSome := by
      intro j hj _ r hr hkeyed
      obtain ⟨-, hrest⟩ := Prod.mk.inj (toLex.injective hkeyed)
      obtain ⟨haccount, -⟩ := Prod.mk.inj (toLex.injective hrest)
      obtain ⟨auth, hmetadata, hevm⟩ := hmiden j hj
      unfold shownProposal
      rw [haccount, hmetadata, authAt_miden hevm]
      exact isSome_fromRecord.mpr (eq_of_beq (List.mem_filter.mp hr).2)
    obtain ⟨e, he, hkeyed⟩ := reading.covers hserves hkey hgoes hends hrows hshown
    obtain ⟨-, hrest⟩ := Prod.mk.inj (toLex.injective hkeyed)
    obtain ⟨haccount, hrest⟩ := Prod.mk.inj (toLex.injective hrest)
    obtain ⟨hnonce, hcommitment⟩ := Prod.mk.inj (toLex.injective hrest)
    exact ⟨e, he, haccount, columns.nonce_inj hnonce, hcommitment⟩

end GlobalProposals

def oneGlobalProposalsFeed :
    Nat → Option String → Except FeedError (PagedResult DashboardProposalEntry) :=
  letI := textOrder
  globalProposalsFeed unitPrimitives [] noonColumns parseNoon () (fun _ => ⟨false, .ok 1, 1⟩)
    oneProposalStorage (fun _ _ => .ok (some oneAuth)) (fun _ => none)

theorem oneGlobalProposalsFeed_answer (j : Nat) :
    oneGlobalProposalsFeed (j + 1) none =
      .ok ⟨[oneProposal].filterMap fun r => DashboardProposalEntry.fromRecord r oneAuth, none⟩ := by
  let := textOrder
  have hread : listGlobalProposalsPaged noonColumns parseNoon ()
      ⟨[oneProposal], List.pairwise_singleton _ _⟩ (pageSize 50) none = [oneProposal] := by
    have hshown : (oneProposal.proposal.status.kind == .pending) = true := by decide
    simp only [listGlobalProposalsPaged, List.filter_cons_of_pos, hshown, List.filter_nil,
      Option.all_none, List.mergeSort_singleton]
    rfl
  simp only [oneGlobalProposalsFeed, globalProposalsFeed, handle, parseLimit, parseCursor,
    defaultLimit, listGlobalProposals, Option.any_none, oneProposalStorage, Option.bind_none, hread]
  rfl

def oneGlobalProposalsReading : Reading oneGlobalProposalsFeed where
  sent := fun _ => none
  first := nothing_sent
  step := by
    intro j
    cases j with
    | zero => rfl
    | succ j => rw [oneGlobalProposalsFeed_answer]

theorem global_proposals_read_once_past_failure :
    ∃ e ∈ oneGlobalProposalsReading.entries 2,
      e.accountId = oneAccount ∧ e.nonce = 7 ∧ e.commitment = oneProposal.commitment := by
  let := textOrder
  have hgoes : oneGlobalProposalsReading.GoesOn 1 := by
    intro j hj answer hanswer
    obtain rfl : j = 0 := by omega
    cases hanswer
  refine (global_proposals_read_once oneGlobalProposalsReading hgoes).2.2
    ⟨_, oneGlobalProposalsFeed_answer 0, rfl⟩ oneAccount 7 oneProposal.commitment
    1778241600000000 ?_ ?_
  · intro j _
    exact ⟨oneAuth, rfl, rfl⟩
  · intro j _ store hstore
    cases j with
    | zero => cases hstore
    | succ j =>
      obtain rfl := Except.ok.inj hstore
      exact ⟨oneProposal, List.mem_singleton_self _, rfl, rfl, rfl, rfl, rfl⟩

end Guardian.Dashboard
