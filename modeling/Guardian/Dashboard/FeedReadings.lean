import Guardian.Dashboard.Feeds

/- Readings of the feeds.

   A reader that sends back each `next_cursor` it gets, at any limits and over any failed
   requests, while the stores change: what it is shown comes in the feed's order and never
   twice, and at the page without a cursor it has been shown everything that was there
   throughout. The four feeds differ in what they show and in how they name their place;
   `serves` is the part they share. -/
namespace Guardian.Dashboard

open Binary Keyset

variable {Instant : Type}

/-! ## Limits and cursors -/

theorem validateLimit_spec {value : Option Nat} {limit : Nat}
    (h : validateLimit value = .ok limit) : 1 ≤ limit ∧ limit ≤ maxLimit := by
  unfold validateLimit at h
  split at h
  · obtain rfl := Except.ok.inj h
    decide
  · cases h
  · next v hne =>
    split at h
    · cases h
    · obtain rfl := Except.ok.inj h
      have hv : v ≠ 0 := fun hzero => hne hzero
      omega

theorem parseLimit_spec {raw : Option String} {limit : Nat} (h : parseLimit raw = .ok limit) :
    1 ≤ limit ∧ limit ≤ maxLimit := by
  unfold parseLimit at h
  split at h
  · obtain rfl := Except.ok.inj h
    decide
  split at h
  · obtain rfl := Except.ok.inj h
    decide
  split at h
  · cases h
  split at h
  · exact validateLimit_spec h
  · cases h

theorem pageSize_eq {limit : Nat} (h : limit ≤ maxLimit) : pageSize limit = limit + 1 := by
  unfold maxLimit at h
  unfold pageSize
  omega

variable {prims : Primitives Instant} {secret : List UInt8} {kind : CursorKind}

/-- A cursor sent back is the cursor minted. -/
theorem parseCursor_encode {cursor : Cursor Instant} (h : cursor.kind = kind) :
    parseCursor prims secret kind (some (Cursor.encode prims cursor secret)) =
      .ok (some cursor) := by
  have hread : Cursor.decode prims (Cursor.encode prims cursor secret) secret kind = .ok cursor := by
    rw [Cursor.decode_encode, if_pos h]
  have hne : Cursor.encode prims cursor secret ≠ "" := by
    intro hempty
    rw [hempty] at hread
    cases hread
  unfold parseCursor
  simp only [if_neg hne, hread]
  rfl

/-! ## What the feeds share -/

section Shared

variable {ε ρ κ P : Type} [LinearOrder κ]

/-- The limit a request is answered at. -/
def limitAt (limits : Nat → Option String) (j : Nat) : Nat :=
  match parseLimit (limits j) with
  | .ok limit => limit
  | .error _ => 0

/-- The place a token names. -/
def placeAt (prims : Primitives Instant) (secret : List UInt8) (kind : CursorKind)
    (place : Cursor Instant → Option P) (token : Option String) : Option P :=
  match parseCursor prims secret kind token with
  | .ok cursor => cursor.bind place
  | .error _ => none

/-- A service that reads `list` one row past the limit, shows the rows up to it and mints
    a cursor for the last of them where there is one more. -/
structure Pages (prims : Primitives Instant) (secret : List UInt8) (kind : CursorKind)
    (service : Nat → Nat → Option (Cursor Instant) → Except FeedError (PagedResult ε))
    (key : ρ → κ) (rows : Nat → List ρ) (list : Nat → Nat → Option P → List ρ)
    (place : Cursor Instant → Option P) (position : P → κ) (mint : ρ → Option (Cursor Instant))
    (shown : Nat → ρ → Option ε) : Prop where
  page : ∀ j n p, IsPage key n (rows j) (p.map position) (list j n p)
  minted : ∀ r c, mint r = some c → c.kind = kind ∧ (place c).map position = some (key r)
  items : ∀ {j limit cursor answer}, service j limit cursor = .ok answer → limit ≤ maxLimit →
    answer.items = ((list j (limit + 1) (cursor.bind place)).take limit).filterMap (shown j)
  next : ∀ {j limit cursor answer}, service j limit cursor = .ok answer → 1 ≤ limit →
    limit ≤ maxLimit → limit < (list j (limit + 1) (cursor.bind place)).length →
    ∃ r c, ((list j (limit + 1) (cursor.bind place)).take limit).getLast? = some r ∧
      mint r = some c ∧ answer.next = some (Cursor.encode prims c secret)
  ends : ∀ {j limit cursor answer}, service j limit cursor = .ok answer → limit ≤ maxLimit →
    ¬limit < (list j (limit + 1) (cursor.bind place)).length → answer.next = none

variable {service : Nat → Nat → Option (Cursor Instant) → Except FeedError (PagedResult ε)}
  {key : ρ → κ} {rows : Nat → List ρ} {list : Nat → Nat → Option P → List ρ}
  {place : Cursor Instant → Option P} {position : P → κ} {mint : ρ → Option (Cursor Instant)}
  {shown : Nat → ρ → Option ε} {limits : Nat → Option String}

/-- The service a handler called. -/
theorem service_of_handle
    (service : Nat → Nat → Option (Cursor Instant) → Except FeedError (PagedResult ε))
    {j : Nat} {token : Option String} {answer : PagedResult ε}
    (h : handle prims secret kind (service j) (limits j) token = .ok answer) :
    ∃ cursor, parseCursor prims secret kind token = .ok cursor ∧
      1 ≤ limitAt limits j ∧ limitAt limits j ≤ maxLimit ∧
      service j (limitAt limits j) cursor = .ok answer := by
  unfold handle at h
  unfold limitAt
  cases hlimit : parseLimit (limits j) with
  | error e =>
    rw [hlimit] at h
    cases h
  | ok limit =>
    rw [hlimit] at h
    cases hcursor : parseCursor prims secret kind token with
    | error e =>
      rw [hcursor] at h
      cases h
    | ok cursor =>
      rw [hcursor] at h
      obtain ⟨hpos, hmax⟩ := parseLimit_spec hlimit
      exact ⟨cursor, rfl, hpos, hmax, h⟩

/-- The feed at each request serves the rows past the place its token names. -/
theorem serves (h : Pages prims secret kind service key rows list place position mint shown)
    (limits : Nat → Option String) :
    Serves (fun j token => handle prims secret kind (service j) (limits j) token) key rows
      (fun token => (placeAt prims secret kind place token).map position)
      (fun j token => (list j (limitAt limits j + 1) (placeAt prims secret kind place token)).take
        (limitAt limits j))
      (fun j token => decide (limitAt limits j <
        (list j (limitAt limits j + 1) (placeAt prims secret kind place token)).length))
      shown where
  begins := rfl
  part := fun _ => (h.page _ _ _).isPart
  items := by
    intro j token answer hanswer
    obtain ⟨cursor, hcursor, -, hmax, hservice⟩ := service_of_handle service hanswer
    rw [h.items hservice hmax, placeAt, hcursor]
  next := by
    intro j token answer hanswer hmore
    obtain ⟨cursor, hcursor, hpos, hmax, hservice⟩ := service_of_handle service hanswer
    rw [placeAt, hcursor, decide_eq_true_eq] at hmore
    obtain ⟨r, c, hlast, hmint, hnext⟩ := h.next hservice hpos hmax hmore
    obtain ⟨hkind, hplace⟩ := h.minted r c hmint
    refine ⟨r, _, ?_, hnext, ?_⟩
    · rw [placeAt, hcursor]
      exact hlast
    · rw [placeAt, parseCursor_encode hkind]
      exact hplace
  ends := by
    intro j token answer hanswer hmore
    obtain ⟨cursor, hcursor, -, hmax, hservice⟩ := service_of_handle service hanswer
    rw [placeAt, hcursor, decide_eq_false_iff_not] at hmore
    exact h.ends hservice hmax hmore

/-- Where every row has an entry, the entries are cut as the rows are. -/
theorem take_filterMap {f : ρ → Option ε} {l : List ρ} (h : ∀ r ∈ l, (f r).isSome) (n : Nat) :
    (l.filterMap f).take n = (l.take n).filterMap f := by
  induction l generalizing n with
  | nil => rw [List.filterMap_nil, List.take_nil, List.take_nil, List.filterMap_nil]
  | cons r l ih =>
    rw [List.forall_mem_cons] at h
    obtain ⟨e, he⟩ := Option.isSome_iff_exists.mp h.1
    cases n with
    | zero => rfl
    | succ n =>
      rw [List.filterMap_cons_some he, List.take_succ_cons, List.take_succ_cons,
        List.filterMap_cons_some he, ih h.2]

theorem length_filterMap_eq {f : ρ → Option ε} {l : List ρ} (h : ∀ r ∈ l, (f r).isSome) :
    (l.filterMap f).length = l.length := by
  induction l with
  | nil => rfl
  | cons r l ih =>
    rw [List.forall_mem_cons] at h
    obtain ⟨e, he⟩ := Option.isSome_iff_exists.mp h.1
    rw [List.filterMap_cons_some he, List.length_cons, List.length_cons, ih h.2]

theorem getLast?_filterMap {f : ρ → Option ε} {l : List ρ} {r : ρ} {e : ε}
    (hlast : l.getLast? = some r) (he : f r = some e) : (l.filterMap f).getLast? = some e := by
  obtain ⟨front, rfl⟩ := List.getLast?_eq_some_iff.mp hlast
  rw [List.filterMap_append, List.filterMap_cons_some he, List.filterMap_nil]
  exact List.getLast?_concat

/-- A page of a longer list has a last row. -/
theorem getLast?_take {l : List ρ} {n : Nat} (hpos : 1 ≤ n) (hlong : n < l.length) :
    ∃ r, (l.take n).getLast? = some r := by
  cases hlast : (l.take n).getLast? with
  | some r => exact ⟨r, rfl⟩
  | none =>
    have hnil := congrArg List.length (List.getLast?_eq_none_iff.mp hlast)
    rw [List.length_take, List.length_nil] at hnil
    omega

end Shared

/-! ## The deltas of an account -/

section Deltas

variable {Stamp : Type} {columns : Columns Instant Stamp} {accountId : Text}

/-- The nonces descend. -/
def nonceKey (columns : Columns Instant Stamp) (n : Nonce) : Intᵒᵈ :=
  OrderDual.toDual (columns.nonce n)

theorem nonceKey_inj {m n : Nonce} (h : nonceKey columns m = nonceKey columns n) : m = n :=
  columns.nonce_inj (OrderDual.toDual.injective h)

/-- What is stored, where the read did not fail. -/
def deltasAt : Except String DeltaStore → DeltaStore
  | .ok store => store
  | .error _ => ⟨[], .nil⟩

theorem isPage_listDeltasPaged (columns : Columns Instant Stamp)
    (shown : DeltaStatusKind → Bool) (store : DeltaStore) (n : Nat) (p : Option Nonce) :
    IsPage (fun d : DeltaObject => nonceKey columns d.nonce) n
      (store.deltas.filter fun d => shown d.status.kind) (p.map (nonceKey columns))
      (listDeltasPaged columns shown store n p) := by
  have hne : (store.deltas.filter fun d => shown d.status.kind).Pairwise fun a b =>
      nonceKey columns a.nonce ≠ nonceKey columns b.nonce := by
    refine (store.unique.imp ?_).sublist List.filter_sublist
    intro a b hne hkey
    exact hne (nonceKey_inj hkey)
  have hpast : ∀ c (d : DeltaObject), decide (columns.nonce d.nonce < columns.nonce c) = true ↔
      nonceKey columns c < nonceKey columns d.nonce := fun c d => decide_eq_true_iff
  exact isPage_read hne (fun d => all_iff_after hpast d) (fun a b => rfl) n

theorem isSome_fromDelta {d : DeltaObject} :
    (DashboardDeltaEntry.fromDelta d).isSome = true ↔ d.status.kind ≠ .pending := by
  unfold DashboardDeltaEntry.fromDelta
  rw [Option.isSome_map]
  cases d.status <;> simp [decodeDeltaStatus, DeltaStatus.kind]

theorem nonce_fromDelta {d : DeltaObject} {e : DashboardDeltaEntry}
    (h : DashboardDeltaEntry.fromDelta d = some e) : e.nonce = d.nonce := by
  obtain ⟨fields, -, rfl⟩ := Option.map_eq_some_iff.mp h
  rfl

/-- What a reading of deltas by their nonces comes to, where each delta read is shown. -/
theorem read_once_by_nonce {ε : Type} {kind : CursorKind}
    {service : Nat → Nat → Option (Cursor Instant) → Except FeedError (PagedResult ε)}
    {rows : Nat → List DeltaObject} {list : Nat → Nat → Option Nonce → List DeltaObject}
    {place : Cursor Instant → Option Nonce} {mint : DeltaObject → Option (Cursor Instant)}
    {shown : Nat → DeltaObject → Option ε} {limits : Nat → Option String}
    (hpages : Pages prims secret kind service (fun d => nonceKey columns d.nonce) rows list place
      (nonceKey columns) mint shown) (nonceOf : ε → Nonce)
    (hnonce : ∀ j d e, shown j d = some e → nonceOf e = d.nonce)
    (hshown : ∀ j, ∀ d ∈ rows j, (shown j d).isSome)
    (reading : Reading fun j token => handle prims secret kind (service j) (limits j) token)
    {last : Nat} (hgoes : reading.GoesOn last) :
    ((reading.entries (last + 1)).Pairwise fun a b =>
      columns.nonce (nonceOf b) < columns.nonce (nonceOf a)) ∧
    (reading.EndsAt last → ∀ n : Nonce,
      (∀ j ≤ last, reading.answered j = true → ∃ d ∈ rows j, d.nonce = n) →
      ∃ e ∈ reading.entries (last + 1), nonceOf e = n) ∧
    ∀ first final : ε, (reading.entries last).head? = some first →
      (reading.entries last).getLast? = some final →
      (((List.range last).filter reading.answered).length : Int) ≤
        columns.nonce (nonceOf first) - columns.nonce (nonceOf final) + 1 := by
  have hserves := serves hpages limits
  have hkey : ∀ j d e, shown j d = some e →
      nonceKey columns (nonceOf e) = nonceKey columns d.nonce := by
    intro j d e he
    rw [hnonce j d e he]
  have hsorted : (reading.entries (last + 1)).Pairwise fun a b =>
      columns.nonce (nonceOf b) < columns.nonce (nonceOf a) := reading.sorted hserves hkey hgoes
  refine ⟨hsorted, ?_, ?_⟩
  · intro hends n hthere
    have hrows : ∀ j ≤ last, reading.answered j = true →
        ∃ d ∈ rows j, nonceKey columns d.nonce = nonceKey columns n := by
      intro j hj hanswered
      obtain ⟨d, hd, rfl⟩ := hthere j hj hanswered
      exact ⟨d, hd, rfl⟩
    obtain ⟨e, he, hn⟩ := reading.covers hserves hkey hgoes hends hrows
      (fun j _ _ d hd _ => hshown j d hd)
    exact ⟨e, he, nonceKey_inj hn⟩
  · intro first final hfirst hfinal
    have hcount := reading.answered_le_entries hserves hgoes hshown (Nat.le_refl last)
    rw [Reading.entries_succ] at hsorted
    have hbefore := (List.pairwise_append.mp hsorted).1
    have hdescending : ((reading.entries last).map fun e => columns.nonce (nonceOf e)).Pairwise
        fun a b => b < a := List.pairwise_map.mpr hbefore
    have hlength := length_le_of_descending hdescending
      (by rw [List.head?_map, hfirst]; rfl) (by rw [List.getLast?_map, hfinal]; rfl)
    simp only [List.length_map] at hlength
    omega

/-- The account delta feed at each request, over what the stores answer there. -/
def accountDeltasFeed (prims : Primitives Instant) (secret : List UInt8)
    (columns : Columns Instant Stamp) (accountId : Text)
    (metadataExists : Nat → Except String Bool) (storage : Nat → Except String DeltaStore)
    (limits : Nat → Option String) (j : Nat) (token : Option String) :
    Except FeedError (PagedResult DashboardDeltaEntry) :=
  handle prims secret .accountDeltas
    (listAccountDeltas prims secret columns accountId (metadataExists j) (storage j))
    (limits j) token

variable {metadataExists : Nat → Except String Bool} {storage : Nat → Except String DeltaStore}
  {limits : Nat → Option String}

/-- What an answer of the service is made of. -/
theorem listAccountDeltas_ok {metadata : Except String Bool} {store : Except String DeltaStore}
    {limit : Nat} {cursor : Option (Cursor Instant)} {answer : PagedResult DashboardDeltaEntry}
    (h : listAccountDeltas prims secret columns accountId metadata store limit cursor =
      .ok answer) (hlimit : limit ≤ maxLimit) :
    ∃ s, store = .ok s ∧
      let rows := listAccountDeltasPaged columns s (limit + 1) (cursor.bind (·.lastNonce))
      answer.items = (rows.take limit).filterMap DashboardDeltaEntry.fromDelta ∧
      answer.next =
        if limit < rows.length then
          ((rows.take limit).filterMap DashboardDeltaEntry.fromDelta).getLast?.map fun last =>
            Cursor.encode prims (.accountDeltas last.nonce) secret
        else none := by
  unfold listAccountDeltas at h
  split at h
  · cases h
  split at h
  · cases h
  · cases h
  split at h
  · cases h
  next s =>
  refine ⟨s, rfl, ?_⟩
  rw [pageSize_eq hlimit] at h
  have hshown : ∀ d ∈ listAccountDeltasPaged columns s (limit + 1) (cursor.bind (·.lastNonce)),
      (DashboardDeltaEntry.fromDelta d).isSome := by
    intro d hd
    have hrow := ((isPage_listDeltasPaged columns _ s _ _).mem d hd).1
    exact isSome_fromDelta.mpr (bne_iff_ne.mp (List.mem_filter.mp hrow).2)
  obtain rfl := Except.ok.inj h
  rw [take_filterMap hshown, length_filterMap_eq hshown]
  refine ⟨rfl, ?_⟩
  simp only [decide_eq_true_eq]

theorem accountDeltas_pages (prims : Primitives Instant) (secret : List UInt8)
    (columns : Columns Instant Stamp) (accountId : Text)
    (metadataExists : Nat → Except String Bool) (storage : Nat → Except String DeltaStore) :
    Pages prims secret .accountDeltas
      (fun j => listAccountDeltas prims secret columns accountId (metadataExists j) (storage j))
      (fun d : DeltaObject => nonceKey columns d.nonce)
      (fun j => (deltasAt (storage j)).deltas.filter fun d => d.status.kind != .pending)
      (fun j => listAccountDeltasPaged columns (deltasAt (storage j)))
      (·.lastNonce) (nonceKey columns) (fun d => some (.accountDeltas d.nonce))
      (fun _ => DashboardDeltaEntry.fromDelta) where
  page := fun j n p =>
    isPage_listDeltasPaged columns (fun kind => kind != .pending) (deltasAt (storage j)) n p
  minted := by
    intro d c hc
    obtain rfl := Option.some.inj hc
    exact ⟨rfl, rfl⟩
  items := by
    intro j limit cursor answer hanswer hlimit
    obtain ⟨s, hstore, hitems, -⟩ := listAccountDeltas_ok hanswer hlimit
    rw [hstore]
    exact hitems
  next := by
    intro j limit cursor answer hanswer hpos hlimit hmore
    obtain ⟨s, hstore, -, hnext⟩ := listAccountDeltas_ok hanswer hlimit
    simp only [hstore, deltasAt] at hmore ⊢
    obtain ⟨d, hlast⟩ := getLast?_take hpos hmore
    have hrow := ((isPage_listDeltasPaged columns _ s _ _).mem d
      (List.mem_of_mem_take (List.mem_of_getLast? hlast))).1
    obtain ⟨e, he⟩ := Option.isSome_iff_exists.mp
      (isSome_fromDelta.mpr (bne_iff_ne.mp (List.mem_filter.mp hrow).2))
    refine ⟨d, _, hlast, rfl, ?_⟩
    rw [hnext, if_pos hmore, getLast?_filterMap hlast he, Option.map_some, nonce_fromDelta he]
  ends := by
    intro j limit cursor answer hanswer hlimit hmore
    obtain ⟨s, hstore, -, hnext⟩ := listAccountDeltas_ok hanswer hlimit
    simp only [hstore, deltasAt] at hmore
    rw [hnext, if_neg hmore]

/-- A request that is answered read the store. -/
theorem stored_of_accountDeltas
    {reading : Reading (accountDeltasFeed prims secret columns accountId metadataExists storage
      limits)} {j : Nat} (h : reading.answered j = true) : ∃ store, storage j = .ok store := by
  obtain ⟨answer, hanswer⟩ := Reading.answered_iff.mp h
  obtain ⟨cursor, -, -, hmax, hservice⟩ := service_of_handle
    (fun j => listAccountDeltas prims secret columns accountId (metadataExists j) (storage j))
    hanswer
  obtain ⟨store, hstore, -⟩ := listAccountDeltas_ok hservice hmax
  exact ⟨store, hstore⟩

/-- A reading of an account's deltas shows them from the highest nonce down, none twice
    and none that was not there, whatever happens to them meanwhile; where it comes to its
    end it has shown each that was there throughout, in whatever status; and it comes there:
    the answers with a cursor are no more than the nonces it has gone down. -/
theorem account_deltas_read_once
    (reading : Reading (accountDeltasFeed prims secret columns accountId metadataExists storage
      limits)) {last : Nat} (hgoes : reading.GoesOn last) :
    ((reading.entries (last + 1)).Pairwise fun a b =>
      columns.nonce b.nonce < columns.nonce a.nonce) ∧
    (∀ j, ∀ e ∈ reading.items j, ∃ store, storage j = .ok store ∧
      ∃ d ∈ store.deltas, DashboardDeltaEntry.fromDelta d = some e) ∧
    (reading.EndsAt last → ∀ n : Nonce,
      (∀ j ≤ last, ∀ store, storage j = .ok store →
        ∃ d ∈ store.deltas, d.nonce = n ∧ d.status.kind ≠ .pending) →
      ∃ e ∈ reading.entries (last + 1), e.nonce = n) ∧
    ∀ first final : DashboardDeltaEntry, (reading.entries last).head? = some first →
      (reading.entries last).getLast? = some final →
      (((List.range last).filter reading.answered).length : Int) ≤
        columns.nonce first.nonce - columns.nonce final.nonce + 1 := by
  have hpages := accountDeltas_pages prims secret columns accountId metadataExists storage
  have hshown : ∀ j, ∀ d ∈ (deltasAt (storage j)).deltas.filter (fun d => d.status.kind != .pending),
      (DashboardDeltaEntry.fromDelta d).isSome :=
    fun j d hd => isSome_fromDelta.mpr (bne_iff_ne.mp (List.mem_filter.mp hd).2)
  obtain ⟨hsorted, hcovers, hcount⟩ := read_once_by_nonce hpages DashboardDeltaEntry.nonce
    (fun _ _ _ => nonce_fromDelta) hshown reading hgoes
  refine ⟨hsorted, ?_, ?_, hcount⟩
  · intro j e he
    obtain ⟨hanswered, d, hd, hentry⟩ := reading.row_of_item (serves hpages limits) he
    obtain ⟨store, hstore⟩ := stored_of_accountDeltas hanswered
    rw [hstore] at hd
    exact ⟨store, hstore, d, (List.mem_filter.mp hd).1, hentry⟩
  · intro hends n hthere
    refine hcovers hends n ?_
    intro j hj hanswered
    obtain ⟨store, hstore⟩ := stored_of_accountDeltas hanswered
    obtain ⟨d, hd, hn, hkind⟩ := hthere j hj store hstore
    rw [hstore]
    exact ⟨d, List.mem_filter.mpr ⟨hd, bne_iff_ne.mpr hkind⟩, hn⟩

/-! A store that cannot be read at the first request and holds one delta from then on. -/

def unitPrimitives : Primitives Unit where
  hmac := fun _ _ => List.replicate 32 0
  length_hmac := fun _ _ => List.length_replicate
  writeInstant := fun _ => ⟨"", by decide⟩
  readInstant := fun _ => some ()
  read_write := fun _ => rfl

def oneDelta : DeltaObject := ⟨7, "0xprev", some "0xnew", "", .canonical 12⟩

def oneAccount : Text := ⟨"0xacc", by decide⟩

theorem listDeltasPaged_one (columns : Columns Unit Stamp) (shown : DeltaStatusKind → Bool)
    (hshown : shown .canonical = true) (store : DeltaStore) (hstore : store.deltas = [oneDelta]) :
    listDeltasPaged columns shown store (pageSize 50) none = [oneDelta] := by
  have hkind : shown oneDelta.status.kind = true := hshown
  simp [listDeltasPaged, hstore, hkind, pageSize]

def oneDeltaFiles : Files where
  deltas := ⟨[oneDelta], List.pairwise_singleton _ _⟩
  superseded := []
  state := none
  metadata := none
  executions := []
  admission := none
  proposals := []

def oneDeltaFileStorage : Nat → Except String DeltaStore
  | 0 => .error "Failed to read directory: permission denied"
  | _ + 1 => .ok (.ofFiles oneDeltaFiles)

theorem accountDeltasFeed_one (j : Nat) :
    accountDeltasFeed unitPrimitives [] Columns.filesystem oneAccount (fun _ => .ok true)
      oneDeltaFileStorage (fun _ => none) (j + 1) none =
      .ok ⟨[oneDelta].filterMap DashboardDeltaEntry.fromDelta, none⟩ := by
  simp only [accountDeltasFeed, handle, parseLimit, parseCursor, defaultLimit, listAccountDeltas,
    Option.any_none, oneDeltaFileStorage, Option.bind_none, listAccountDeltasPaged,
    listDeltasPaged_one _ (fun kind => kind != .pending) rfl (.ofFiles oneDeltaFiles) rfl]
  rfl

theorem nothing_sent : (none : Option String) = none := rfl

def oneDeltaReading :
    Reading (accountDeltasFeed unitPrimitives [] Columns.filesystem oneAccount (fun _ => .ok true)
      oneDeltaFileStorage (fun _ => none)) where
  sent := fun _ => none
  first := nothing_sent
  step := by
    intro j
    cases j with
    | zero => rfl
    | succ j => rw [accountDeltasFeed_one]

theorem account_deltas_read_once_past_failure :
    ∃ e ∈ oneDeltaReading.entries 2, e.nonce = 7 := by
  have hgoes : oneDeltaReading.GoesOn 1 := by
    intro j hj answer hanswer
    obtain rfl : j = 0 := by omega
    cases hanswer
  refine (account_deltas_read_once oneDeltaReading hgoes).2.2.1
    ⟨_, accountDeltasFeed_one 0, rfl⟩ 7 ?_
  intro j hj store hstore
  cases j with
  | zero => cases hstore
  | succ j =>
    obtain rfl := Except.ok.inj hstore
    exact ⟨oneDelta, List.mem_singleton_self _, rfl, by decide⟩

/-! ## The history of an account -/

/-- The history feed at each request. -/
def deltaHistoryFeed (prims : Primitives Instant) (secret : List UInt8)
    (columns : Columns Instant Stamp) (accountId : Text)
    (resolved : Nat → Except FeedError Unit) (storage : Nat → Except String DeltaStore)
    (limits : Nat → Option String) (j : Nat) (token : Option String) :
    Except FeedError (PagedResult HistoryEntry) :=
  handle prims secret .accountDeltaHistory
    (getDeltaHistory prims secret columns accountId (resolved j) (storage j)) (limits j) token

variable {resolved : Nat → Except FeedError Unit}

theorem getDeltaHistory_ok {resolution : Except FeedError Unit} {store : Except String DeltaStore}
    {limit : Nat} {cursor : Option (Cursor Instant)} {answer : PagedResult HistoryEntry}
    (h : getDeltaHistory prims secret columns accountId resolution store limit cursor =
      .ok answer) (hlimit : limit ≤ maxLimit) :
    (∀ c ∈ cursor, c.lastAccountId = some accountId) ∧ ∃ s, store = .ok s ∧
      let rows := listCanonicalDeltasPaged columns s (limit + 1) (cursor.bind (·.lastNonce))
      answer.items = (rows.take limit).map HistoryEntry.fromDelta ∧
      answer.next =
        if limit < rows.length then
          ((rows.take limit).map HistoryEntry.fromDelta).getLast?.map fun last =>
            Cursor.encode prims (.accountDeltaHistory last.nonce accountId) secret
        else none := by
  unfold getDeltaHistory at h
  split at h
  · cases h
  next hminted =>
  refine ⟨?_, ?_⟩
  · intro c hc
    obtain rfl : cursor = some c := hc
    rw [Option.any_some] at hminted
    by_contra hother
    exact hminted (by rw [bne_iff_ne.mpr hother, Bool.or_true])
  split at h
  · cases h
  split at h
  · cases h
  next s =>
  refine ⟨s, rfl, ?_⟩
  rw [pageSize_eq hlimit] at h
  obtain rfl := Except.ok.inj h
  refine ⟨rfl, ?_⟩
  simp only [decide_eq_true_eq]

theorem deltaHistory_pages (prims : Primitives Instant) (secret : List UInt8)
    (columns : Columns Instant Stamp) (accountId : Text)
    (resolved : Nat → Except FeedError Unit) (storage : Nat → Except String DeltaStore) :
    Pages prims secret .accountDeltaHistory
      (fun j => getDeltaHistory prims secret columns accountId (resolved j) (storage j))
      (fun d : DeltaObject => nonceKey columns d.nonce)
      (fun j => (deltasAt (storage j)).deltas.filter fun d => d.status.kind == .canonical)
      (fun j => listCanonicalDeltasPaged columns (deltasAt (storage j)))
      (·.lastNonce) (nonceKey columns) (fun d => some (.accountDeltaHistory d.nonce accountId))
      (fun _ d => some (HistoryEntry.fromDelta d)) where
  page := fun j n p =>
    isPage_listDeltasPaged columns (fun kind => kind == .canonical) (deltasAt (storage j)) n p
  minted := by
    intro d c hc
    obtain rfl := Option.some.inj hc
    exact ⟨rfl, rfl⟩
  items := by
    intro j limit cursor answer hanswer hlimit
    obtain ⟨-, s, hstore, hitems, -⟩ := getDeltaHistory_ok hanswer hlimit
    rw [hstore, hitems, List.filterMap_eq_map']
    rfl
  next := by
    intro j limit cursor answer hanswer hpos hlimit hmore
    obtain ⟨-, s, hstore, -, hnext⟩ := getDeltaHistory_ok hanswer hlimit
    simp only [hstore, deltasAt] at hmore ⊢
    obtain ⟨d, hlast⟩ := getLast?_take hpos hmore
    refine ⟨d, _, hlast, rfl, ?_⟩
    rw [hnext, if_pos hmore, List.getLast?_map, hlast]
    rfl
  ends := by
    intro j limit cursor answer hanswer hlimit hmore
    obtain ⟨-, s, hstore, -, hnext⟩ := getDeltaHistory_ok hanswer hlimit
    simp only [hstore, deltasAt] at hmore
    rw [hnext, if_neg hmore]

/-- A request that is answered read the store, with no cursor or one minted for the
    account. -/
theorem stored_of_deltaHistory {j : Nat} {token : Option String} {answer : PagedResult HistoryEntry}
    (h : deltaHistoryFeed prims secret columns accountId resolved storage limits j token =
      .ok answer) :
    (∃ store, storage j = .ok store) ∧ ∃ cursor,
      parseCursor prims secret .accountDeltaHistory token = .ok cursor ∧
      ∀ c ∈ cursor, c.lastAccountId = some accountId := by
  obtain ⟨cursor, hcursor, -, hmax, hservice⟩ := service_of_handle
    (fun j => getDeltaHistory prims secret columns accountId (resolved j) (storage j)) h
  obtain ⟨hminted, store, hstore, -⟩ := getDeltaHistory_ok hservice hmax
  exact ⟨⟨store, hstore⟩, cursor, hcursor, hminted⟩

/-- A reading of an account's history shows the canonical deltas from the highest nonce
    down, none twice, and at its end each that was canonical throughout; no cursor minted
    for another account is answered. -/
theorem delta_history_read_once
    (reading : Reading (deltaHistoryFeed prims secret columns accountId resolved storage limits))
    {last : Nat} (hgoes : reading.GoesOn last) :
    ((reading.entries (last + 1)).Pairwise fun a b =>
      columns.nonce b.nonce < columns.nonce a.nonce) ∧
    (∀ j, ∀ e ∈ reading.items j, ∃ store, storage j = .ok store ∧
      ∃ d ∈ store.deltas, d.status.kind = .canonical ∧ HistoryEntry.fromDelta d = e) ∧
    (reading.EndsAt last → ∀ n : Nonce,
      (∀ j ≤ last, ∀ store, storage j = .ok store →
        ∃ d ∈ store.deltas, d.nonce = n ∧ d.status.kind = .canonical) →
      ∃ e ∈ reading.entries (last + 1), e.nonce = n) ∧
    (∀ first final : HistoryEntry, (reading.entries last).head? = some first →
      (reading.entries last).getLast? = some final →
      (((List.range last).filter reading.answered).length : Int) ≤
        columns.nonce first.nonce - columns.nonce final.nonce + 1) ∧
    ∀ j n other answer, other ≠ accountId →
      deltaHistoryFeed prims secret columns accountId resolved storage limits j
        (some (Cursor.encode prims (.accountDeltaHistory n other) secret)) ≠ .ok answer := by
  have hpages := deltaHistory_pages prims secret columns accountId resolved storage
  obtain ⟨hsorted, hcovers, hcount⟩ := read_once_by_nonce hpages HistoryEntry.nonce
    (by
      intro j d e he
      obtain rfl := Option.some.inj he
      rfl)
    (fun _ _ _ => rfl) reading hgoes
  refine ⟨hsorted, ?_, ?_, hcount, ?_⟩
  · intro j e he
    obtain ⟨hanswered, d, hd, hentry⟩ := reading.row_of_item (serves hpages limits) he
    obtain ⟨answer, hanswer⟩ := Reading.answered_iff.mp hanswered
    obtain ⟨⟨store, hstore⟩, -⟩ := stored_of_deltaHistory hanswer
    rw [hstore] at hd
    obtain ⟨hin, hkind⟩ := List.mem_filter.mp hd
    exact ⟨store, hstore, d, hin, eq_of_beq hkind, Option.some.inj hentry⟩
  · intro hends n hthere
    refine hcovers hends n ?_
    intro j hj hanswered
    obtain ⟨answer, hanswer⟩ := Reading.answered_iff.mp hanswered
    obtain ⟨⟨store, hstore⟩, -⟩ := stored_of_deltaHistory hanswer
    obtain ⟨d, hd, hn, hkind⟩ := hthere j hj store hstore
    rw [hstore]
    exact ⟨d, List.mem_filter.mpr ⟨hd, beq_iff_eq.mpr hkind⟩, hn⟩
  · intro j n other answer hother hanswer
    obtain ⟨-, cursor, hcursor, hminted⟩ := stored_of_deltaHistory hanswer
    have hkind : (Cursor.accountDeltaHistory n other : Cursor Instant).kind =
        .accountDeltaHistory := rfl
    rw [parseCursor_encode hkind] at hcursor
    obtain rfl := Except.ok.inj hcursor
    exact hother (Option.some.inj (hminted _ rfl))

def oneDeltaDb : Db := { Db.empty with deltas := ⟨[⟨0, oneDelta⟩], List.pairwise_singleton _ _⟩ }

def oneDeltaDbStorage : Nat → Except String DeltaStore
  | 0 => .error "Failed to get connection: timed out"
  | _ + 1 => .ok (.ofDb oneDeltaDb)

theorem deltaHistoryFeed_one (j : Nat) :
    deltaHistoryFeed unitPrimitives [] (Columns.postgres fun _ => 0) oneAccount (fun _ => .ok ())
      oneDeltaDbStorage (fun _ => none) (j + 1) none =
      .ok ⟨[HistoryEntry.fromDelta oneDelta], none⟩ := by
  simp only [deltaHistoryFeed, handle, parseLimit, parseCursor, defaultLimit, getDeltaHistory,
    Option.any_none, oneDeltaDbStorage, Option.bind_none, listCanonicalDeltasPaged,
    listDeltasPaged_one _ (fun kind => kind == .canonical) rfl (.ofDb oneDeltaDb) rfl]
  rfl

def oneHistoryReading :
    Reading (deltaHistoryFeed unitPrimitives [] (Columns.postgres fun _ => 0) oneAccount
      (fun _ => .ok ()) oneDeltaDbStorage (fun _ => none)) where
  sent := fun _ => none
  first := nothing_sent
  step := by
    intro j
    cases j with
    | zero => rfl
    | succ j => rw [deltaHistoryFeed_one]

theorem delta_history_read_once_past_failure :
    ∃ e ∈ oneHistoryReading.entries 2, e.nonce = 7 := by
  have hgoes : oneHistoryReading.GoesOn 1 := by
    intro j hj answer hanswer
    obtain rfl : j = 0 := by omega
    cases hanswer
  refine (delta_history_read_once oneHistoryReading hgoes).2.2.1
    ⟨_, deltaHistoryFeed_one 0, rfl⟩ 7 ?_
  intro j hj store hstore
  cases j with
  | zero => cases hstore
  | succ j =>
    obtain rfl := Except.ok.inj hstore
    exact ⟨oneDelta, List.mem_singleton_self _, rfl, rfl⟩

end Deltas

end Guardian.Dashboard
