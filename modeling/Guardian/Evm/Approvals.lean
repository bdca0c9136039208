import Guardian.Evm.Service
import Guardian.Lib.Rely
import Guardian.Lib.Trace

/- Which approvals of an EVM proposal are kept.

   No signer of a stored proposal ever appears twice, in any run (`reach_ok`): an
   approval appends to a proposal it read, and what it read had no signature of
   its signer. That the approvals others were told of stay is another matter: the
   write replaces whatever is stored by what was read, so an approval made between
   the read and the write is lost. It is kept in the runs where every such write
   finds the signatures it read (`undisturbed`); the last section has two
   concurrent approvals of which one is lost. -/
namespace Guardian.Evm

open Interleaving

/-! ## Writes -/

/-- What is written was a proposal in normal form, no signer twice, under its own
id. -/
structure Sound (commitment : Text) (delta : Delta) : Prop where
  built : ∃ p : EvmProposal, delta = p.intoDelta ∧ p.proposalId = commitment ∧
    (∀ s ∈ p.signatures, s.Normal) ∧ p.Distinct

/-- A stored proposal reads back with distinct signers. -/
def Readable (commitment : Text) (delta : Delta) : Prop :=
  ∃ p, EvmProposal.fromDelta commitment delta = .ok p ∧ p.Distinct

theorem distinct_reread {p q : EvmProposal} (h : p.Distinct)
    (hq : q.signatures = p.signatures.map EvmProposalSignature.reread) : q.Distinct := by
  rw [EvmProposal.Distinct, hq, List.pairwise_map]
  exact h

theorem Sound.readable {commitment : Text} {delta : Delta} (h : Sound commitment delta) :
    Readable commitment delta := by
  obtain ⟨p, rfl, rfl, hnormal, hdistinct⟩ := h.built
  exact ⟨_, EvmProposal.fromDelta_intoDelta hnormal, distinct_reread hdistinct rfl⟩

/-- The timestamp of what is written is a number of milliseconds. -/
theorem Sound.timestamp {commitment : Text} {delta : Delta} (h : Sound commitment delta) :
    ∃ millis : Int, delta.status.timestamp = toString millis := by
  obtain ⟨p, rfl, -⟩ := h.built
  exact ⟨p.createdAt, rfl⟩

/-- An approval by a signer whose signature is not there yet. -/
theorem sound_approved {commitment : Text} {p : EvmProposal} {s : EvmProposalSignature}
    (hid : p.proposalId = commitment) (hnormal : ∀ s ∈ p.signatures, s.Normal)
    (hdistinct : p.Distinct) (hs : s.Normal) (hnew : p.hasSignatureFrom s.signer = false) :
    Sound commitment { p with signatures := p.signatures ++ [s] }.intoDelta := by
  refine ⟨{ p with signatures := p.signatures ++ [s] }, rfl, hid, fun t ht => ?_, ?_⟩
  · obtain ht | ht := List.mem_append.mp ht
    · exact hnormal t ht
    · rwa [List.mem_singleton.mp ht]
  · refine List.pairwise_append.mpr ⟨hdistinct, List.pairwise_singleton _ _, ?_⟩
    intro t ht u hu
    rw [List.mem_singleton.mp hu]
    rw [EvmProposal.hasSignatureFrom, List.any_eq_false] at hnew
    exact Bool.not_eq_true _ ▸ hnew t ht

theorem mapError_ok {ε ε' α : Type} {x : Except ε α} {wrap : ε → ε'} {a : α}
    (h : x.mapError wrap = .ok a) : x = .ok a := by
  cases x with
  | ok b => cases h; rfl
  | error e => cases h

theorem new_signature_normal {chainId ttlSeconds : UInt64} {account validator hash proposer : Text}
    {payload nonce : String} {signature : EvmProposalSignature} {input : NormalizedEvmProposalInput}
    (h : NormalizedEvmProposalInput.new chainId account validator hash payload nonce proposer
      signature ttlSeconds = .ok input) : input.signature.Normal := by
  rw [NormalizedEvmProposalInput.new] at h
  split at h
  · cases h
  · split at h
    · cases h
    · obtain ⟨_, -, h⟩ := Multisig.bind_eq_ok.mp h
      obtain ⟨_, -, h⟩ := Multisig.bind_eq_ok.mp h
      obtain ⟨signer, hsigner, h⟩ := Multisig.bind_eq_ok.mp h
      obtain ⟨text, htext, h⟩ := Multisig.bind_eq_ok.mp h
      split at h
      · cases h
      · obtain ⟨_, -, h⟩ := Multisig.bind_eq_ok.mp h
        obtain ⟨_, -, h⟩ := Multisig.bind_eq_ok.mp h
        obtain ⟨_, -, h⟩ := Multisig.bind_eq_ok.mp h
        cases h
        exact ⟨normalizeEvmAddress_idem (mapError_ok hsigner), normalizeSignature_idem htext⟩

theorem sound_newProposal {accountId proposalId : Text} {input : NormalizedEvmProposalInput}
    {snapshot : EvmSignerSnapshot} {now expiresAt : Int} (h : input.signature.Normal) :
    Sound proposalId (newProposal accountId proposalId input snapshot now expiresAt).intoDelta := by
  refine ⟨newProposal accountId proposalId input snapshot now expiresAt, rfl, rfl, ?_, ?_⟩
  · intro s hs
    rwa [List.mem_singleton.mp hs]
  · exact List.pairwise_singleton _ _

/-! ## Every run stores sound proposals -/

def WriteOk : Op → Prop
  | .submitDeltaProposal commitment delta => Sound commitment delta
  | .updateDeltaProposal commitment delta => Sound commitment delta
  | .writeProposal commitment delta => Sound commitment delta
  | _ => True

/-- Every stored proposal was written so, under its account. -/
def StoreOk (w : Store) : Prop :=
  ∀ key delta, w key = some delta → delta.accountId = key.1 ∧ Sound key.2 delta

/-- Nothing is known of the store between two calls but that it is sound. -/
def discipline : Rely Op Store where
  inv := StoreOk
  rely := fun _ _ _ => True
  ok := fun _ op _ => WriteOk op
  refl := fun _ => trivial
  trans := fun _ _ => trivial

theorem storeOk_update {w : Store} {key : Text × Text} {row : Option Delta} (hw : StoreOk w)
    (hrow : ∀ delta, row = some delta → delta.accountId = key.1 ∧ Sound key.2 delta) :
    StoreOk (Function.update w key row) := by
  intro key' delta hdelta
  by_cases hkey : key' = key
  · subst hkey
    rw [Function.update_self] at hdelta
    exact hrow delta hdelta
  · rw [Function.update_of_ne hkey] at hdelta
    exact hw key' delta hdelta

theorem storeOk_written {w : Store} {commitment : Text} {proposal : Delta} (hw : StoreOk w)
    (hsound : Sound commitment proposal) :
    StoreOk (Function.update w (keyOf commitment proposal) (some proposal)) := by
  refine storeOk_update hw ?_
  rintro _ ⟨⟩
  exact ⟨rfl, hsound⟩

theorem submitted_storeOk {backend : Backend} {w : Store} {commitment : Text} {proposal : Delta}
    (hw : StoreOk w) (hsound : Sound commitment proposal) :
    StoreOk (submitted backend commitment proposal w).2 := by
  cases backend with
  | filesystem => exact storeOk_written hw hsound
  | postgres parse =>
    rw [submitted]
    split
    · exact hw
    · split
      · exact hw
      · exact storeOk_written hw hsound

theorem updated_storeOk {parse : String → Option Int} {w : Store} {commitment : Text}
    {proposal : Delta} (hw : StoreOk w) (hsound : Sound commitment proposal) :
    StoreOk (updated parse commitment proposal w).2 := by
  rw [updated]
  split
  · exact hw
  · split
    · exact storeOk_written hw hsound
    · exact hw

/-- What a write leaves: its result, or the store as it was. -/
theorem written_cases {ch : Choice} {result : Except String Unit × Store} {w w' : Store}
    {r : Except String Unit} (h : written ch result w = some (r, w')) :
    (w' = result.2 ∧ (ch = .done ∧ r = result.1 ∨ ch = .lost)) ∨ (ch = .failed ∧ w' = w) := by
  cases ch with
  | done => cases h; exact .inl ⟨rfl, .inl ⟨rfl, rfl⟩⟩
  | lost => cases h; exact .inl ⟨rfl, .inr rfl⟩
  | failed => cases h; exact .inr ⟨rfl, rfl⟩
  | _ => cases h

theorem written_storeOk {ch : Choice} {result : Except String Unit × Store} {w w' : Store}
    {r : Except String Unit} (h : written ch result w = some (r, w')) (hw : StoreOk w)
    (hresult : StoreOk result.2) : StoreOk w' := by
  obtain ⟨rfl, -⟩ | ⟨-, rfl⟩ := written_cases h
  · exact hresult
  · exact hw

/-- Every call keeps the store sound, if its write is. -/
theorem exec_storeOk {backend : Backend} (pid : Nat) {op : Op} {ch : Choice} {w w' : Store}
    {r : Res op} (hok : WriteOk op) (h : exec backend pid op ch w = some (r, w'))
    (hw : StoreOk w) : StoreOk w' := by
  cases op with
  | metadataGet | now | ensureValidatorInstalled | signerSnapshot | entrypointNonce
  | pullDeltaProposal | pullAllDeltaProposals =>
    cases ch <;> cases h <;> exact hw
  | tryExists commitment proposal => cases backend <;> cases ch <;> cases h <;> exact hw
  | deleteDeltaProposal accountId commitment =>
    exact written_storeOk h hw (storeOk_update hw fun _ hnone => by cases hnone)
  | submitDeltaProposal commitment proposal =>
    exact written_storeOk h hw (submitted_storeOk hw hok)
  | updateDeltaProposal commitment proposal =>
    cases backend with
    | postgres parse => exact written_storeOk h hw (updated_storeOk hw hok)
    | filesystem => cases h
  | writeProposal commitment proposal =>
    cases backend with
    | postgres parse => cases h
    | filesystem => exact written_storeOk h hw (submitted_storeOk hw hok)

theorem kept {backend : Backend} {G : Guard Op Request Store Choice Act} :
    discipline.Kept (machine backend) G (fun _ _ _ => True) where
  call := fun {pid} _ _ _ _ _ _ hok _ hx hw =>
    ⟨exec_storeOk pid hok hx hw, fun _ => trivial⟩
  act := fun {a} => nomatch a

section Handlers
variable {backend : Backend} {G : Guard Op Request Store Choice Act} {pid : Nat} {α β : Type}

/-- The procedure makes only sound writes, and where it returns a value, `Q` holds
of it. -/
abbrev Writes (backend : Backend) (G : Guard Op Request Store Choice Act) (pid : Nat)
    (x : Handler α) (Q : α → Prop) : Prop := discipline.Gives (machine backend) G pid x Q

theorem writes_orFail {ε : Type} {x : Except ε α} {wrap : ε → EvmError} :
    Writes backend G pid (Handler.orFail x wrap) (fun a => x = .ok a) := by
  cases x with
  | ok a => exact .pure' rfl
  | error e => exact .throw' _

theorem writes_call {o : Op} (hok : WriteOk o) :
    Writes backend G pid (Handler.call o) (fun _ => True) :=
  .op' (fun _ _ => hok) fun _ _ _ _ _ _ => trivial

/-- What was read is sound. -/
theorem writes_pull (accountId commitment : Text) :
    Writes backend G pid (Handler.call (.pullDeltaProposal accountId commitment))
      (fun found => ∀ delta, found = some delta → Sound commitment delta) := by
  refine .op' (fun _ _ => trivial) fun ch w r w' hw hx delta hdelta => ?_
  cases ch <;> cases hx
  · exact (hw (accountId, commitment) delta hdelta).2
  · cases hdelta

theorem writes_proposalIsInactive (server : Server) (p : EvmProposal) :
    Writes backend G pid (proposalIsInactive server p) (fun _ => True) := by
  refine .bind' (writes_call trivial) fun now _ => ?_
  split
  · exact .pure' trivial
  · split
    · refine .bind' (writes_call trivial) fun answer _ => .bind' writes_orFail fun current _ => ?_
      exact writes_orFail.mono fun _ _ => trivial
    · exact .throw' _

theorem writes_loadEvmMetadata (accountId : Text) :
    Writes backend G pid (loadEvmMetadata accountId) (fun _ => True) := by
  refine .bind' (writes_call trivial) fun answer _ => ?_
  match answer with
  | .error e => exact .throw' _
  | .ok none => exact .throw' _
  | .ok (some metadata) =>
    dsimp only
    cases metadata.networkConfig with
    | evm chainId account validator => exact .pure' trivial
    | miden network => exact .throw' _

/-- A loaded proposal is in normal form, no signer twice, under its id. -/
structure Loaded (commitment : Text) (p : EvmProposal) : Prop where
  id : p.proposalId = commitment
  normal : ∀ s ∈ p.signatures, s.Normal
  distinct : p.Distinct

theorem Sound.loaded {commitment : Text} {delta : Delta} {p : EvmProposal}
    (h : Sound commitment delta) (hp : EvmProposal.fromDelta commitment delta = .ok p) :
    Loaded commitment p := by
  obtain ⟨q, hq, hdistinct⟩ := h.readable
  rw [hq] at hp
  cases hp
  exact ⟨(EvmProposal.fromDelta_spec hq).1, EvmProposal.fromDelta_normal hq, hdistinct⟩

theorem writes_loadActiveProposal (server : Server) (accountId proposalId : Text) :
    Writes backend G pid (loadActiveProposal server accountId proposalId)
      (fun p => ∃ commitment, normalizeProposalId proposalId = .ok commitment ∧
        Loaded commitment p) := by
  refine .bind' writes_orFail fun commitment hcommitment => ?_
  refine .bind' (writes_pull accountId commitment) fun found hfound => ?_
  cases found with
  | none => exact .throw' _
  | some delta =>
    refine .bind' writes_orFail fun p hp => ?_
    refine .bind' (writes_proposalIsInactive server p) fun inactive _ => ?_
    split
    · refine .bind' (writes_call trivial) fun answer _ => .bind' writes_orFail fun _ _ => ?_
      exact .throw' _
    · exact .pure' ⟨commitment, hcommitment, (hfound delta rfl).loaded hp⟩

theorem writes_getProposal (server : Server) (accountId commitment sessionAddress : Text) :
    Writes backend G pid (getProposal server accountId commitment sessionAddress)
      (fun _ => True) := by
  refine .bind' (writes_loadActiveProposal server accountId commitment) fun p _ => ?_
  refine .bind' writes_orFail fun session _ => .bind' writes_orFail fun _ _ => ?_
  exact .pure' trivial

theorem writes_executableProposal (server : Server) (accountId commitment sessionAddress : Text) :
    Writes backend G pid (executableProposal server accountId commitment sessionAddress)
      (fun _ => True) := by
  refine .bind' (writes_getProposal server accountId commitment sessionAddress) fun p _ => ?_
  split
  · exact .pure' trivial
  · exact .throw' _

theorem writes_listLoop (server : Server) (accountId sessionAddress : Text)
    (records : List Delta) (active : List EvmProposal) :
    Writes backend G pid (listLoop server accountId sessionAddress records active)
      (fun _ => True) := by
  induction records generalizing active with
  | nil => exact .pure' trivial
  | cons delta rest ih =>
    rw [listLoop]
    split
    · exact ih active
    · refine .bind' writes_orFail fun p _ => ?_
      refine .bind' (writes_proposalIsInactive server p) fun inactive _ => ?_
      split
      · refine .bind' (writes_call trivial) fun answer _ => .bind' writes_orFail fun _ _ => ?_
        exact ih active
      · exact .bind' writes_orFail fun _ _ => ih _

theorem writes_listProposals (server : Server) (accountId sessionAddress : Text) :
    Writes backend G pid (listProposals server accountId sessionAddress) (fun _ => True) := by
  refine .bind' (writes_loadEvmMetadata accountId) fun metadata _ => ?_
  refine .bind' writes_orFail fun session _ => .bind' (writes_call trivial) fun answer _ => ?_
  refine .bind' writes_orFail fun records _ => ?_
  refine .bind' (writes_listLoop server accountId session records []) fun active _ => ?_
  exact .pure' trivial

theorem writes_cancelProposal (server : Server) (accountId commitment sessionAddress : Text) :
    Writes backend G pid (cancelProposal server accountId commitment sessionAddress)
      (fun _ => True) := by
  refine .bind' writes_orFail fun proposalId _ => .bind' writes_orFail fun session _ => ?_
  refine .bind' (writes_loadActiveProposal server accountId proposalId) fun p _ => ?_
  split
  · refine .bind' (writes_loadEvmMetadata accountId) fun metadata _ => ?_
    refine .bind' writes_orFail fun _ _ => .bind' (writes_call trivial) fun answer _ => ?_
    exact writes_orFail.mono fun _ _ => trivial
  · exact .throw' _

theorem writes_checkedInput (server : Server) (params : CreateEvmProposalParams) :
    Writes backend G pid (checkedInput server params) (fun x => x.1.signature.Normal) := by
  refine .bind' (writes_loadEvmMetadata _) fun metadata _ => ?_
  refine .bind' writes_orFail fun parts _ => ?_
  obtain ⟨chainId, account, validator⟩ := parts
  refine .bind' writes_orFail fun session _ => .bind' writes_orFail fun text _ => ?_
  refine .bind' (writes_call trivial) fun signedAt _ => .bind' writes_orFail fun input hinput => ?_
  split
  · refine .bind' (writes_call trivial) fun installed _ => .bind' writes_orFail fun _ _ => ?_
    refine .bind' (writes_call trivial) fun answer _ => .bind' writes_orFail fun snapshot _ => ?_
    split
    · refine .bind' writes_orFail fun recovered _ => ?_
      split
      · exact .bind' writes_orFail fun _ _ => .pure' (new_signature_normal hinput)
      · exact .throw' _
    · exact .throw' _
  · exact .throw' _

theorem writes_storeNew (server : Server) (accountId proposalId : Text)
    {input : NormalizedEvmProposalInput} (snapshot : EvmSignerSnapshot)
    (hinput : input.signature.Normal) :
    Writes backend G pid (storeNew server accountId proposalId input snapshot)
      (fun _ => True) := by
  refine .bind' (writes_call trivial) fun now _ => ?_
  dsimp only
  cases server.addSeconds now input.ttlSeconds with
  | none => exact .throw' _
  | some expiresAt =>
    refine .bind' (writes_call (sound_newProposal hinput)) fun answer _ => ?_
    exact .bind' writes_orFail fun _ _ => .pure' trivial

theorem writes_createProposal (server : Server) (params : CreateEvmProposalParams) :
    Writes backend G pid (createProposal server params) (fun _ => True) := by
  refine .bind' (writes_checkedInput server params) fun checked hinput => ?_
  obtain ⟨input, snapshot⟩ := checked
  refine .bind' writes_orFail fun proposalId _ => ?_
  refine .bind' (writes_call trivial) fun found _ => ?_
  cases found with
  | none => exact writes_storeNew server _ proposalId snapshot hinput
  | some delta =>
    refine .bind' writes_orFail fun existing _ => ?_
    refine .bind' (writes_proposalIsInactive server existing) fun inactive _ => ?_
    split
    · refine .bind' (writes_call trivial) fun answer _ => .bind' writes_orFail fun _ _ => ?_
      exact writes_storeNew server _ proposalId snapshot hinput
    · exact .pure' trivial

theorem writes_updateDeltaProposal {commitment : Text} {proposal : Delta}
    (h : Sound commitment proposal) :
    Writes backend G pid (updateDeltaProposal backend commitment proposal) (fun _ => True) := by
  cases backend with
  | postgres parse =>
    exact .bind' (writes_call h) fun answer _ => writes_orFail.mono fun _ _ => trivial
  | filesystem =>
    refine .bind' (writes_call trivial) fun answer _ => .bind' writes_orFail fun found _ => ?_
    split
    · exact .bind' (writes_call h) fun answer _ => writes_orFail.mono fun _ _ => trivial
    · exact .pure' trivial

theorem writes_approveProposal (server : Server) (params : ApproveEvmProposalParams) :
    Writes backend G pid (approveProposal backend server params) (fun _ => True) := by
  refine .bind' writes_orFail fun proposalId hid => .bind' writes_orFail fun signer hsigner => ?_
  refine .bind' (writes_loadActiveProposal server _ proposalId) fun p hp => ?_
  obtain ⟨commitment, hcommitment, hloaded⟩ := hp
  rw [normalizeProposalId_idem hid] at hcommitment
  cases hcommitment
  refine .bind' writes_orFail fun _ _ => ?_
  split
  · exact .throw' _
  · rename_i hnew
    refine .bind' writes_orFail fun hash _ => ?_
    obtain ⟨_, hashBytes⟩ := hash
    refine .bind' writes_orFail fun signature hsignature => .bind' writes_orFail fun recovered _ => ?_
    split
    · refine .bind' (writes_loadEvmMetadata _) fun metadata _ => .bind' writes_orFail fun _ _ => ?_
      refine .bind' (writes_call trivial) fun signedAt _ => ?_
      have hnormal : EvmProposalSignature.Normal ⟨signer, signature, signedAt⟩ :=
        ⟨normalizeEvmAddress_idem (mapError_ok hsigner), normalizeSignature_idem hsignature⟩
      have hsound := sound_approved hloaded.id hloaded.normal hloaded.distinct hnormal
        (Bool.not_eq_true _ ▸ hnew)
      exact .bind' (writes_updateDeltaProposal hsound) fun _ _ => .pure' trivial
    · exact .throw' _

theorem wp_answered {x : Handler α} {Q : α → Prop} (h : Writes backend G pid x Q) (w : Store) :
    discipline.wp (machine backend) G pid (answered x) (fun _ _ => True) w :=
  Rely.wp_bind (Rely.wp_mono (h w) fun _ _ _ => trivial)

/-- Every program makes only sound writes. -/
theorem wp_handle (servers : Nat → Server) (req : Request) (w : Store) :
    discipline.wp (machine backend) G pid (handle backend servers req) (fun _ _ => True) w := by
  cases req with
  | create replica params => exact wp_answered (writes_createProposal _ params) w
  | approve replica params => exact wp_answered (writes_approveProposal _ params) w
  | get replica accountId commitment session =>
    exact wp_answered (writes_getProposal _ accountId commitment session) w
  | executable replica accountId commitment session =>
    exact wp_answered (writes_executableProposal _ accountId commitment session) w
  | list replica accountId session => exact wp_answered (writes_listProposals _ accountId session) w
  | cancel replica accountId commitment session =>
    exact wp_answered (writes_cancelProposal _ accountId commitment session) w

end Handlers

/-- No proposals are stored. -/
def emptyStore : Store := fun _ => none

theorem reach_ok {backend : Backend} {servers : Nat → Server}
    {G : Guard Op Request Store Choice Act} {c : Conf Op Res Store Request}
    (h : Reach (machine backend) (handle backend servers) G emptyStore c) :
    StoreOk c.world ∧ ∀ {pid req op k}, c.procs pid = some (req, .call op k) → WriteOk op := by
  obtain ⟨hstore, hprocs⟩ := Rely.reach kept (fun _ _ => trivial)
    (fun key delta hdelta => by cases hdelta) (fun _ _ _ _ => wp_handle servers _ _) h
  exact ⟨hstore, fun hp => (hprocs hp c.world trivial hstore).1⟩

/-! ## What a success means -/

/-- Any answers at all. -/
def anyAnswers : Contract Op Res := ⟨fun _ _ => True, fun _ _ => True⟩

/-- The last call was one after which the signer is told: the update of Postgres
answered, the file was written, or there was no file; and what the written
proposal adds is the approval. -/
def ToldBy (approved : EvmProposal) (h : History Op Res) : Prop :=
  ∃ commitment rest,
    (h = ⟨.updateDeltaProposal commitment approved.intoDelta, Except.ok ()⟩ :: rest ∨
      h = ⟨.writeProposal commitment approved.intoDelta, Except.ok ()⟩ :: rest ∨
      h = ⟨.tryExists commitment approved.intoDelta, Except.ok false⟩ :: rest)

/-- The approval a signer was told of: the last signature of the proposal. -/
def Approves (sessionAddress : Text) (approved : EvmProposal) : Prop :=
  ∃ s : EvmProposalSignature, normalizeEvmAddress sessionAddress = .ok s.signer ∧
    approved.intoDelta.status.cosignerSigs.getLast? = some (.ofEvm s)

section Success
variable {α : Type} {h : History Op Res}

theorem returns_any (x : Handler α) (h : History Op Res) :
    anyAnswers.Returns x (fun _ _ => True) h := by
  suffices ∀ {γ : Type} (p : Prog Op Res γ) (h : History Op Res),
      anyAnswers.Meets p (fun _ _ => True) h from
    (this x.run h).mono fun _ _ _ _ _ => trivial
  intro γ p h
  induction p generalizing h with
  | done a => trivial
  | call o k ih => exact ⟨trivial, fun r _ => ih r _⟩

theorem returns_orFail {ε : Type} {x : Except ε α} {wrap : ε → EvmError} :
    anyAnswers.Returns (Handler.orFail x wrap : Handler α) (fun a h' => x = .ok a ∧ h' = h) h := by
  cases x with
  | ok a => exact Contract.Returns.pure' ⟨rfl, rfl⟩
  | error e => exact Contract.Returns.throw' _

theorem returns_updateDeltaProposal (backend : Backend) (commitment : Text)
    (approved : EvmProposal) :
    anyAnswers.Returns (updateDeltaProposal backend commitment approved.intoDelta)
      (fun _ => ToldBy approved) h := by
  cases backend with
  | postgres parse =>
    refine Contract.Returns.bind' (Contract.Returns.op' trivial fun answer _ => ?_)
    refine Contract.Returns.mono returns_orFail fun _ h' hok => ?_
    obtain ⟨rfl, rfl⟩ := hok
    exact ⟨commitment, h, .inl rfl⟩
  | filesystem =>
    refine Contract.Returns.bind' (Contract.Returns.op' trivial fun answer _ => ?_)
    refine Contract.Returns.seq returns_orFail fun found h₁ _ hfound => ?_
    obtain ⟨rfl, rfl⟩ := hfound
    cases found with
    | true =>
      refine Contract.Returns.bind' (Contract.Returns.op' trivial fun answer _ => ?_)
      refine Contract.Returns.mono returns_orFail fun _ h' hok => ?_
      obtain ⟨rfl, rfl⟩ := hok
      exact ⟨commitment, _, .inr (.inl rfl)⟩
    | false => exact Contract.Returns.pure' ⟨commitment, h, .inr (.inr rfl)⟩

theorem returns_approveProposal (backend : Backend) (server : Server)
    (params : ApproveEvmProposalParams) :
    anyAnswers.Returns (approveProposal backend server params)
      (fun approved h' => Approves params.sessionAddress approved ∧ ToldBy approved h') h := by
  refine Contract.Returns.seq (returns_any _ h) fun proposalId h₁ _ _ => ?_
  refine Contract.Returns.seq returns_orFail fun signer h₂ _ hsigner => ?_
  refine Contract.Returns.seq (returns_any _ h₂) fun p h₃ _ _ => ?_
  refine Contract.Returns.seq (returns_any _ h₃) fun _ h₄ _ _ => ?_
  split
  · exact Contract.Returns.throw' _
  · refine Contract.Returns.seq (returns_any _ h₄) fun hash h₅ _ _ => ?_
    obtain ⟨_, hashBytes⟩ := hash
    refine Contract.Returns.seq (returns_any _ h₅) fun signature h₆ _ _ => ?_
    refine Contract.Returns.seq (returns_any _ h₆) fun recovered h₇ _ _ => ?_
    split
    · refine Contract.Returns.seq (returns_any _ h₇) fun metadata h₈ _ _ => ?_
      refine Contract.Returns.seq (returns_any _ h₈) fun _ h₉ _ _ => ?_
      refine Contract.Returns.seq (returns_any _ h₉) fun signedAt h₁₀ _ _ => ?_
      refine Contract.Returns.seq (returns_updateDeltaProposal backend proposalId _)
        fun _ h₁₁ _ htold => Contract.Returns.pure' ⟨?_, htold⟩
      refine ⟨⟨signer, signature, signedAt⟩, mapError_ok hsigner.1, ?_⟩
      show ((p.signatures ++ [_]).map CosignerSignature.ofEvm).getLast? = _
      rw [List.map_append, List.getLast?_append]
      rfl
    · exact Contract.Returns.throw' _

end Success

/-! ## Undisturbed approvals -/

/-- On the filesystem: the proposal an approval writes is there with the signatures
the approval read, and a creation finds no file. -/
def findsWhatItRead : Op → Choice → Store → Bool
  | _, .failed, _ => true
  | .submitDeltaProposal commitment proposal, _, w => (w (keyOf commitment proposal)).isNone
  | .tryExists commitment proposal, _, w => (w (keyOf commitment proposal)).isSome
  | .writeProposal commitment proposal, _, w =>
    match w (keyOf commitment proposal) with
    | some stored =>
      decide (stored.status.cosignerSigs = proposal.status.cosignerSigs.dropLast)
    | none => false
  | _, _, _ => true

/-- The runs in which no write of a proposal comes between the read and the write
of another. -/
def undisturbed (backend : Backend) : Guard Op Request Store Choice Act where
  spawn := fun _ _ => true
  call := fun _ op ch w =>
    match backend with
    | .postgres _ => true
    | .filesystem => findsWhatItRead op ch w
  act := fun _ _ => true

/-- The signatures stored of a proposal. -/
def storedSigs (w : Store) (key : Text × Text) : List CosignerSignature :=
  match w key with
  | some delta => delta.status.cosignerSigs
  | none => []

/-- The approvals told of are among those stored. -/
def ToldStored (w : Store) (told : Told) : Prop := ∀ key, (told key).Sublist (storedSigs w key)

theorem toldStored_update {w : Store} {told : Told} {key : Text × Text} {row : Option Delta}
    {sigs : List CosignerSignature} (h : ToldStored w told)
    (hkey : sigs.Sublist (storedSigs (fun _ => row) key)) :
    ToldStored (Function.update w key row) (Function.update told key sigs) := by
  intro key'
  rw [storedSigs]
  by_cases hk : key' = key
  · subst hk
    rw [Function.update_self, Function.update_self]
    exact hkey
  · rw [Function.update_of_ne hk, Function.update_of_ne hk]
    exact h key'

theorem toldStored_replace {w : Store} {told : Told} {key : Text × Text} {row : Option Delta}
    (h : ToldStored w told) (hkey : (told key).Sublist (storedSigs (fun _ => row) key)) :
    ToldStored (Function.update w key row) told := by
  have hupdate := toldStored_update h hkey
  rwa [Function.update_eq_self] at hupdate

theorem dropLast_sublist_append {α : Type} {l m : List α} (h : l.Sublist m.dropLast) :
    (l ++ m.getLast?.toList).Sublist m ∧ l.Sublist m := by
  refine ⟨?_, h.trans (List.dropLast_sublist m)⟩
  obtain rfl | ⟨init, last, rfl⟩ := List.eq_nil_or_concat' m
  · simpa using h
  · rw [List.dropLast_concat] at h
    rw [List.getLast?_concat]
    exact h.append (List.Sublist.refl _)

/-- An approval's write in an undisturbed run. -/
theorem toldStored_writeProposal {w : Store} {told : Told} {commitment : Text} {proposal : Delta}
    (h : ToldStored w told) {ch : Choice}
    (hread : findsWhatItRead (.writeProposal commitment proposal) ch w = true)
    (hch : ch ≠ .failed) :
    ToldStored (submitted .filesystem commitment proposal w).2 (tell commitment proposal told) ∧
      ToldStored (submitted .filesystem commitment proposal w).2 told := by
  have hsigs : storedSigs w (keyOf commitment proposal) = proposal.status.cosignerSigs.dropLast := by
    rw [storedSigs]
    have hfinds : (match w (keyOf commitment proposal) with
        | some stored =>
          decide (stored.status.cosignerSigs = proposal.status.cosignerSigs.dropLast)
        | none => false) = true := by
      cases ch <;> first | exact absurd rfl hch | exact hread
    split at hfinds
    · exact of_decide_eq_true hfinds
    · cases hfinds
  have hold := h (keyOf commitment proposal)
  rw [hsigs] at hold
  obtain ⟨htold, hkept⟩ := dropLast_sublist_append hold
  exact ⟨toldStored_update h htold, toldStored_replace h hkept⟩

/-- A creation that finds no file replaces no signature. -/
theorem toldStored_submit {w : Store} {told : Told} {commitment : Text} {proposal : Delta}
    (h : ToldStored w told) {ch : Choice}
    (hread : findsWhatItRead (.submitDeltaProposal commitment proposal) ch w = true)
    (hch : ch ≠ .failed) :
    ToldStored (submitted .filesystem commitment proposal w).2 told := by
  have hnone : w (keyOf commitment proposal) = none := by
    refine Option.isNone_iff_eq_none.mp ?_
    cases ch <;> first | exact absurd rfl hch | exact hread
  have hold := h (keyOf commitment proposal)
  rw [storedSigs, hnone, List.sublist_nil] at hold
  refine toldStored_replace h ?_
  rw [hold]
  exact List.nil_sublist _

theorem exec_toldStored (pid : Nat) {op : Op} {ch : Choice} {w w' : Store} {r : Res op}
    {told : Told} (hread : findsWhatItRead op ch w = true)
    (hx : exec .filesystem pid op ch w = some (r, w')) (h : ToldStored w told) :
    ToldStored w' (noteTold .filesystem pid op ch w told) := by
  cases op with
  | metadataGet | now | ensureValidatorInstalled | signerSnapshot | entrypointNonce
  | pullDeltaProposal | pullAllDeltaProposals =>
    cases ch <;> cases hx <;> exact h
  | tryExists commitment proposal =>
    cases ch <;> cases hx
    · have hfound : (w (keyOf commitment proposal)).isSome = true := hread
      rw [noteTold, if_pos hfound]
      exact h
    · exact h
  | deleteDeltaProposal accountId commitment =>
    cases ch <;> cases hx
    · exact toldStored_update h (List.nil_sublist _)
    · exact toldStored_update h (List.nil_sublist _)
    · exact h
  | submitDeltaProposal commitment proposal =>
    cases ch <;> cases hx
    · exact toldStored_submit h hread nofun
    · exact toldStored_submit h hread nofun
    · exact h
  | updateDeltaProposal commitment proposal => cases hx
  | writeProposal commitment proposal =>
    cases ch <;> cases hx
    · exact (toldStored_writeProposal h hread nofun).1
    · exact (toldStored_writeProposal h hread nofun).2
    · exact h

/-! ## Postgres stores no EVM proposal -/

section Postgres
variable {parse : String → Option Int} (hparse : ∀ millis : Int, parse (toString millis) = none)
include hparse

/-- The timestamp of an EVM proposal is refused. -/
theorem deriveStatusColumns_refused {commitment : Text} {delta : Delta}
    (h : Sound commitment delta) : ∃ e, deriveStatusColumns parse delta.status = .error e := by
  obtain ⟨millis, hmillis⟩ := h.timestamp
  rw [deriveStatusColumns]
  split
  · exact ⟨_, rfl⟩
  · rw [hmillis, hparse]
    exact ⟨_, rfl⟩

theorem exec_postgres_empty (pid : Nat) {op : Op} {ch : Choice} {w' : Store} {r : Res op}
    (hok : WriteOk op) (hx : exec (.postgres parse) pid op ch emptyStore = some (r, w')) :
    w' = emptyStore ∧
      noteTold (.postgres parse) pid op ch emptyStore (fun _ => []) = fun _ => [] := by
  have hdeleted : ∀ key, Function.update emptyStore key none = emptyStore := fun key =>
    Function.update_eq_self key emptyStore
  have hforgotten : ∀ key, Function.update (fun _ => [] : Told) key [] = fun _ => [] := fun key =>
    Function.update_eq_self key (fun _ => [] : Told)
  cases op with
  | metadataGet | now | ensureValidatorInstalled | signerSnapshot | entrypointNonce
  | pullDeltaProposal | pullAllDeltaProposals =>
    cases ch <;> cases hx <;> exact ⟨rfl, rfl⟩
  | deleteDeltaProposal accountId commitment =>
    cases ch <;> cases hx
    · exact ⟨hdeleted _, hforgotten _⟩
    · exact ⟨hdeleted _, hforgotten _⟩
    · exact ⟨rfl, rfl⟩
  | submitDeltaProposal commitment proposal =>
    obtain ⟨e, he⟩ := deriveStatusColumns_refused hparse hok
    have hrefused : submitted (.postgres parse) commitment proposal emptyStore =
        (.error e, emptyStore) := by rw [submitted, he]
    obtain ⟨rfl, -⟩ | ⟨-, rfl⟩ := written_cases hx
    · exact ⟨by rw [hrefused], by cases ch <;> rfl⟩
    · exact ⟨rfl, by cases ch <;> rfl⟩
  | updateDeltaProposal commitment proposal =>
    obtain ⟨e, he⟩ := deriveStatusColumns_refused hparse hok
    have hrefused : updated parse commitment proposal emptyStore = (.error e, emptyStore) := by
      rw [updated, he]
    have htold : noteTold (.postgres parse) pid (.updateDeltaProposal commitment proposal) ch
        emptyStore (fun _ => []) = fun _ => [] := by
      cases ch with
      | done => rw [noteTold, hrefused]
      | _ => rfl
    obtain ⟨rfl, -⟩ | ⟨-, rfl⟩ := written_cases hx
    · exact ⟨by rw [hrefused], htold⟩
    · exact ⟨rfl, htold⟩
  | tryExists commitment proposal => cases hx
  | writeProposal commitment proposal => cases hx

end Postgres

/-! ## Every undisturbed run -/

section Runs
variable {backend : Backend} {servers : Nat → Server} {c : Conf Op Res Store Request} {told : Told}

theorem recorded_toldStored
    (hparse : ∀ parse, backend = .postgres parse → ∀ millis : Int, parse (toString millis) = none)
    (h : Recorded (machine backend) (handle backend servers) (undisturbed backend)
      (noteTold backend) emptyStore (fun _ => []) c told) : ToldStored c.world told := by
  cases backend with
  | filesystem =>
    exact Recorded.induct (K := fun _ _ _ => True) (fun _ _ => trivial)
      (fun key => List.nil_sublist _)
      (fun {pid _ _ _ _ _ _} _ hread hx hw => exec_toldStored pid hread hx hw)
      (fun {a} => nomatch a) h
  | postgres parse =>
    have hempty : c.world = emptyStore ∧ told = fun _ => [] := by
      refine Recorded.induct (K := fun _ op _ => WriteOk op) (I := fun w t =>
        w = emptyStore ∧ t = fun _ => []) (fun hr hp => (reach_ok hr).2 hp) ⟨rfl, rfl⟩
        ?_ (fun {a} => nomatch a) h
      rintro pid op ch w r w' _ hok - hx ⟨rfl, rfl⟩
      exact exec_postgres_empty (hparse parse rfl) pid hok hx
    intro key
    rw [hempty.2]
    exact List.nil_sublist _

/-- In every state of every undisturbed run, with any number of requests on any
number of replicas: every approval whose signer was told of it is in the stored
proposal until that is deleted; the stored proposal reads back, no signer appears
twice, and it is executable once its threshold of signers were told. An approval
that succeeds was told of: its last call is the write that adds it, or the one
that found the proposal gone.

On Postgres every run is undisturbed, where chrono reads no number of milliseconds
as RFC 3339: nothing is stored there. -/
theorem told_approval_kept
    (hparse : ∀ parse, backend = .postgres parse → ∀ millis : Int, parse (toString millis) = none)
    (h : Recorded (machine backend) (handle backend servers) (undisturbed backend)
      (noteTold backend) emptyStore (fun _ => []) c told) :
    (∀ key a, a ∈ told key →
      ∃ delta, c.world key = some delta ∧ a ∈ delta.status.cosignerSigs) ∧
    (∀ key delta, c.world key = some delta →
      ∃ p, EvmProposal.fromDelta key.2 delta = .ok p ∧
        (p.signatures.Pairwise fun a b => eqIgnoreAsciiCase a.signer b.signer = false) ∧
        (p.threshold ≤ (told key).length → p.isExecutable = true)) ∧
    ∀ replica params calls approved,
      anyAnswers.After (approveProposal backend (servers replica) params).run calls
          (.done (.ok approved)) →
        Approves params.sessionAddress approved ∧ ToldBy approved calls := by
  have htold := recorded_toldStored hparse h
  refine ⟨fun key a ha => ?_, fun key delta hdelta => ?_, ?_⟩
  · have hmem := (htold key).subset ha
    rw [storedSigs] at hmem
    split at hmem
    · rename_i delta hdelta
      exact ⟨delta, hdelta, hmem⟩
    · cases hmem
  · obtain ⟨p, hp, hdistinct⟩ := (((reach_ok h.reach).1 key delta hdelta).2).readable
    refine ⟨p, hp, hdistinct, fun hthreshold => ?_⟩
    obtain ⟨-, timestamp, proposerId, sigs, hstatus, hsigs⟩ := EvmProposal.fromDelta_spec hp
    have hstored : storedSigs c.world key = sigs := by
      rw [storedSigs, hdelta]
      show delta.status.cosignerSigs = sigs
      rw [hstatus]
      rfl
    have hlength := (htold key).length_le
    rw [hstored] at hlength
    have hcount : p.signatureCount = sigs.length := length_mapM hsigs
    exact decide_eq_true (hcount ▸ hthreshold.trans hlength)
  · intro replica params calls approved hafter
    exact (returns_approveProposal backend (servers replica) params).rest hafter approved rfl

end Runs

/-! ## Two signers at once -/

namespace TwoApprovals

/-- Addresses and signatures of one repeated digit or byte. -/
def address (digit : Char) : Text := '0' :: 'x' :: List.replicate 40 digit

def signature (byte : UInt8) : Text := formatFixedHex (List.replicate 65 byte)

def proposalId : Text := formatFixedHex (List.replicate 32 1)

def server (_replica : Nat) : Server where
  chains := fun chainId => chainId == 1
  recoverHashAddress := fun _ text =>
    if text = signature 10 then .ok (address 'a')
    else if text = signature 11 then .ok (address 'b')
    else if text = signature 12 then .ok (address 'c')
    else .error "unknown signature"
  computeProposalId := fun _ => .ok proposalId
  addSeconds := fun now seconds => some (now + 1000 * seconds.toNat)

def accountId : Text := evmAccountId 1 (address '1')

def account : MetadataStores.AccountMetadata where
  accountId := String.ofList accountId
  auth := .evmEcdsa (['a', 'b', 'c'].map fun digit => String.ofList (address digit))
  networkConfig := .evm 1 (String.ofList (address '1')) (String.ofList (address '2'))
  createdAt := 0
  updatedAt := 0
  hasPendingCandidate := false
  pausedAt := none
  pausedReason := none
  releasedAt := none

def metadata (pid : Nat) : Event Request Choice Act := .run pid (.metadata (.ok (some account)))

/-- The first signer creates the proposal, at time 0, for all three to sign. -/
def creation : List (Event Request Choice Act) :=
  [.spawn 0 (.create 0 ⟨accountId, formatFixedHex (List.replicate 32 2), "payload", "5", 60,
      signature 10, address 'a'⟩), metadata 0, .run 0 (.clock 0), .run 0 (.installed (.ok ())),
    .run 0 (.signers (.ok ⟨[address 'a', address 'b', address 'c'], 3⟩)), .run 0 .done,
    .run 0 (.clock 0), .run 0 .done]

def approve (pid : Nat) (byte : UInt8) (digit : Char) : Event Request Choice Act :=
  .spawn pid (.approve pid ⟨accountId, proposalId, signature byte, address digit⟩)

/-- An approval from its read up to its write. -/
def reads (pid : Nat) : List (Event Request Choice Act) :=
  [.run pid .done, .run pid (.clock 1), .run pid (.nonce (.ok "5")), metadata pid,
    .run pid (.clock 1)]

/-- Its test for the file and its write. -/
def writes (pid : Nat) : List (Event Request Choice Act) := [.run pid .done, .run pid .done]

/-- One approval after the other. -/
def inTurn : List (Event Request Choice Act) :=
  creation ++ [approve 1 11 'b'] ++ reads 1 ++ writes 1 ++ [approve 2 12 'c'] ++ reads 2 ++ writes 2

/-- Both read before either writes. -/
def atOnce : List (Event Request Choice Act) :=
  creation ++ [approve 1 11 'b', approve 2 12 'c'] ++ reads 1 ++ reads 2 ++ writes 1 ++ writes 2

def final (G : Guard Op Request Store Choice Act) (events : List (Event Request Choice Act)) :
    Option (Conf Op Res Store Request × Told) :=
  runRecorded (machine .filesystem) (handle .filesystem server) G (noteTold .filesystem)
    (Conf.start emptyStore) (fun _ => []) events

/-- The stored approval of a signer at time 1. -/
def approval (byte : UInt8) (digit : Char) : CosignerSignature :=
  .ofEvm ⟨address digit, signature byte, 1⟩

end TwoApprovals

/-- One approval after the other: both signers are told, and both are stored. -/
theorem told_approval_kept_in_turn :
    ∃ c told delta,
      Recorded (machine .filesystem) (handle .filesystem TwoApprovals.server)
        (undisturbed .filesystem) (noteTold .filesystem) emptyStore (fun _ => []) c told ∧
      told (TwoApprovals.accountId, TwoApprovals.proposalId) =
        [TwoApprovals.approval 11 'b', TwoApprovals.approval 12 'c'] ∧
      c.world (TwoApprovals.accountId, TwoApprovals.proposalId) = some delta ∧
      TwoApprovals.approval 11 'b' ∈ delta.status.cosignerSigs ∧
      TwoApprovals.approval 12 'c' ∈ delta.status.cosignerSigs := by
  have hfinal : (TwoApprovals.final (undisturbed .filesystem) TwoApprovals.inTurn).map
      (fun x => x.2 (TwoApprovals.accountId, TwoApprovals.proposalId)) =
      some [TwoApprovals.approval 11 'b', TwoApprovals.approval 12 'c'] := by decide +kernel
  obtain ⟨⟨c, told⟩, hrun, hx⟩ := Option.map_eq_some_iff.mp hfinal
  have htold : told (TwoApprovals.accountId, TwoApprovals.proposalId) =
      [TwoApprovals.approval 11 'b', TwoApprovals.approval 12 'c'] := hx
  have hrec := Recorded.init.runRecorded hrun
  have hkept := (told_approval_kept (fun _ hne _ => by cases hne) hrec).1
    (TwoApprovals.accountId, TwoApprovals.proposalId)
  obtain ⟨delta, hdelta, hb⟩ := hkept (TwoApprovals.approval 11 'b') (by
    rw [htold]
    exact List.mem_cons_self)
  obtain ⟨delta', hdelta', hc⟩ := hkept (TwoApprovals.approval 12 'c') (by
    rw [htold]
    exact List.mem_cons_of_mem _ List.mem_cons_self)
  have hsame : delta' = delta := Option.some.inj (hdelta'.symm.trans hdelta)
  exact ⟨c, told, delta, hrec, htold, hdelta, hb, hsame ▸ hc⟩

/-- Both approvals read the proposal before either writes it: both signers are
told, the first one's approval is not in the stored proposal, and with all three
signatures given the proposal is not executable. -/
theorem concurrent_approval_lost :
    ∃ c told delta p,
      Recorded (machine .filesystem) (handle .filesystem TwoApprovals.server) Guard.any
        (noteTold .filesystem) emptyStore (fun _ => []) c told ∧
      TwoApprovals.approval 11 'b' ∈ told (TwoApprovals.accountId, TwoApprovals.proposalId) ∧
      c.world (TwoApprovals.accountId, TwoApprovals.proposalId) = some delta ∧
      TwoApprovals.approval 11 'b' ∉ delta.status.cosignerSigs ∧
      EvmProposal.fromDelta TwoApprovals.proposalId delta = .ok p ∧ p.isExecutable = false := by
  have hfinal : (TwoApprovals.final Guard.any TwoApprovals.atOnce).map (fun x =>
      (decide (TwoApprovals.approval 11 'b' ∈
          x.2 (TwoApprovals.accountId, TwoApprovals.proposalId)),
        (x.1.world (TwoApprovals.accountId, TwoApprovals.proposalId)).map fun delta =>
          (decide (TwoApprovals.approval 11 'b' ∈ delta.status.cosignerSigs),
            (EvmProposal.fromDelta TwoApprovals.proposalId delta).toOption.map
              (·.isExecutable)))) =
      some (true, some (false, some false)) := by decide +kernel
  obtain ⟨⟨c, told⟩, hrun, hx⟩ := Option.map_eq_some_iff.mp hfinal
  obtain ⟨htold, hstored⟩ := Prod.mk.inj hx
  obtain ⟨delta, hdelta, hsigs⟩ := Option.map_eq_some_iff.mp hstored
  obtain ⟨hlost, hread⟩ := Prod.mk.inj hsigs
  obtain ⟨p, hp, hnot⟩ := Option.map_eq_some_iff.mp hread
  refine ⟨c, told, delta, p, Recorded.init.runRecorded hrun, of_decide_eq_true htold, hdelta,
    of_decide_eq_false hlost, ?_, hnot⟩
  cases hfrom : EvmProposal.fromDelta TwoApprovals.proposalId delta with
  | ok q => rw [hfrom] at hp; cases hp; rfl
  | error e => rw [hfrom] at hp; cases hp

end Guardian.Evm
