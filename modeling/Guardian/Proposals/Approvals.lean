import Guardian.Lib.Rely
import Guardian.Lib.Trace
import Guardian.Proposals.Sign

/- Acknowledged approvals are kept.

   What a stored proposal always satisfies (`Good`) is a property of one row: its
   signers differ, and its payload lists what its status lists. Every write of a
   row is either the first, of a row a push built, or replaces a row whose status
   is the one the writer read. The writer appended to a good row, so the row it
   writes is good and has every approval of the row it replaces: the status that
   was compared holds them all. -/
namespace Guardian.Proposals

open Interleaving Json

variable {N : Type}

/-! ## The two lists of a proposal -/

/-- An entry of the payload is a cosigner signature of the status; signer ids are
compared as the services compare them. -/
def Carries (value : Value N) (sig : CosignerSignature) : Prop :=
  ∃ signerId, DeltaSignature.fromValue value = some ⟨signerId, sig.signature⟩ ∧
    Multisig.eqIgnoreAsciiCase signerId sig.signerId = true

/-- No signer twice, and the payload's list is the status's. -/
structure Good (p : Proposal N) : Prop where
  distinct : p.status.approvals.Pairwise fun a b =>
    Multisig.eqIgnoreAsciiCase a.signerId b.signerId = false
  inStep : List.Forall₂ Carries (payloadSignatures p.deltaPayload) p.status.approvals

theorem eqIgnoreAsciiCase_self (s : String) : Multisig.eqIgnoreAsciiCase s s = true :=
  beq_self_eq_true _

theorem signatureFromValue_toValue (s : ProposalSignature) :
    signatureFromValue (signatureToValue s : Value N) = some s := by
  cases s with
  | falcon signature => rfl
  | ecdsa signature publicKey format =>
    cases publicKey with
    | none => cases format <;> rfl
    | some key => cases format <;> rfl

theorem fromValue_toValue (s : DeltaSignature) :
    DeltaSignature.fromValue (s.toValue : Value N) = some s := by
  have hsignature : get "signature" (s.toValue : Value N) = some (signatureToValue s.signature) :=
    rfl
  have hsigner : get "signer_id" (s.toValue : Value N) = some (.str s.signerId) := rfl
  rw [DeltaSignature.fromValue, hsigner, hsignature]
  dsimp only
  rw [signatureFromValue_toValue, Option.map_some]

theorem lookup_insertEntry (key : String) (value : Value N) (entries : List (String × Value N)) :
    (insertEntry key value entries).lookup key = some value := by
  induction entries with
  | nil => exact List.lookup_cons_self
  | cons first rest ih =>
    obtain ⟨k, v⟩ := first
    rw [insertEntry]
    split
    · exact List.lookup_cons_self
    · rename_i hk
      rw [List.lookup_cons, beq_false_of_ne (Ne.symm hk)]
      exact ih

theorem payloadSignatures_append {payload payload' entry : Value N}
    (h : appendSignature payload entry = .ok payload') :
    payloadSignatures payload' = payloadSignatures payload ++ [entry] := by
  have hinsert : ∀ (entries : List (String × Value N)) (items : List (Value N)),
      payloadSignatures (.obj (insertEntry "signatures" (.arr items) entries)) = items := by
    intro entries items
    rw [payloadSignatures, get, lookup_insertEntry]
  cases payload with
  | obj entries =>
    rw [appendSignature] at h
    split at h
    · rename_i items hitems
      cases h
      rw [hinsert, payloadSignatures, get, hitems]
    · rename_i hnot
      cases h
      rw [hinsert, payloadSignatures, get]
      split
      · rename_i items hitems
        exact absurd hitems (hnot items)
      · rfl
  | null => cases h
  | bool b => cases h
  | num n => cases h
  | str s => cases h
  | arr items => cases h

/-- An approval is appended to both lists, and only a new signer's. -/
theorem withApproval_spec {p signed : Proposal N} {commitment signer : String}
    {signature : ProposalSignature} {now : Time}
    (h : withApproval p commitment signer signature now = .ok signed) :
    signed.accountId = p.accountId ∧
      signed.status.approvals = p.status.approvals ++ [⟨signature, now, signer⟩] ∧
      (Good p → Good signed) := by
  rw [withApproval] at h
  cases hstatus : p.status with
  | other status => rw [hstatus] at h; cases h
  | pending timestamp proposerId sigs =>
    rw [hstatus] at h
    dsimp only at h
    split at h
    · cases h
    · rename_i hnew
      obtain ⟨payload, hpayload, h⟩ := Multisig.bind_eq_ok.mp h
      cases h
      refine ⟨rfl, rfl, fun hgood => ⟨?_, ?_⟩⟩
      · have hdistinct := hgood.distinct
        rw [hstatus] at hdistinct
        refine List.pairwise_append.mpr ⟨hdistinct, List.pairwise_singleton _ _, ?_⟩
        intro a ha b hb
        rw [List.mem_singleton.mp hb]
        rw [List.any_eq_true, not_exists] at hnew
        have hne := hnew a
        rw [not_and, Bool.not_eq_true] at hne
        exact hne ha
      · have hinStep := hgood.inStep
        rw [hstatus] at hinStep
        rw [payloadSignatures_append hpayload]
        refine List.rel_append hinStep (.cons ?_ .nil)
        exact ⟨signer, fromValue_toValue _, eqIgnoreAsciiCase_self signer⟩

/-- A push attaches what its payload lists, at most one signature. -/
theorem creationSignatures_spec {server : Server N} {auth : Auth} {payload : Value N}
    {proposerId : String} {now : Time} {values : List (Value N)}
    {sigs sigs' : List CosignerSignature}
    (h : creationSignatures server auth payload proposerId now values sigs = .ok sigs') :
    ∃ added, sigs' = sigs ++ added ∧ List.Forall₂ Carries values added ∧
      (sigs.length ≤ 1 → sigs'.length ≤ 1) := by
  induction values generalizing sigs with
  | nil =>
    rw [creationSignatures] at h
    cases h
    exact ⟨[], (List.append_nil _).symm, .nil, id⟩
  | cons value rest ih =>
    rw [creationSignatures] at h
    split at h
    · cases h
    · rename_i parsed hparsed
      split at h
      · cases h
      · rename_i hproposer
        rw [Bool.or_eq_true, not_or, Bool.not_eq_true, Bool.not_eq_true, Bool.not_eq_false',
          Bool.not_eq_false'] at hproposer
        obtain ⟨signer, -, h⟩ := Multisig.bind_eq_ok.mp h
        split at h
        · obtain ⟨-, -, h⟩ := Multisig.bind_eq_ok.mp h
          obtain ⟨added, rfl, hcarries, hlength⟩ := ih h
          refine ⟨⟨parsed.signature, now, proposerId⟩ :: added, ?_, .cons ?_ hcarries, fun _ => ?_⟩
          · rw [List.append_assoc, List.singleton_append]
          · exact ⟨parsed.signerId, hparsed, hproposer.2⟩
          · apply hlength
            rw [List.isEmpty_iff.mp hproposer.1]
            exact Nat.le_refl 1
        · cases h

/-! ## The calls of the handlers -/

/-- What a write relies on: the row is good, and a replacement has one approval
more than the status it is conditional on. -/
def WriteOk : Op N → Prop
  | .admitDeltaProposal _ p => Good p
  | .updateDeltaProposalIfStatus _ p expected =>
    Good p ∧ ∃ a, p.status.approvals = expected.approvals ++ [a]
  | _ => True

/-- Every stored proposal is good, under its own account. -/
def StoreOk (w : Store N) : Prop :=
  ∀ key p, w key = some p → p.accountId = key.1 ∧ Good p

/-- Nothing is known of the store between two calls but that it is good. -/
def discipline (N : Type) : Rely (Op N) (Store N) where
  inv := StoreOk
  rely := fun _ _ _ => True
  ok := fun _ op _ => WriteOk op
  refl := fun _ => trivial
  trans := fun _ _ => trivial

theorem storeOk_update {w : Store N} {key : String × String} {row : Option (Proposal N)}
    (hw : StoreOk w) (hrow : ∀ p, row = some p → p.accountId = key.1 ∧ Good p) :
    StoreOk (Function.update w key row) := by
  intro key' p hp
  by_cases hkey : key' = key
  · subst hkey
    rw [Function.update_self] at hp
    exact hrow p hp
  · rw [Function.update_of_ne hkey] at hp
    exact hw key' p hp

theorem updateIfStatus_storeOk {w : Store N} {commitment : String} {p : Proposal N}
    {expected : ProposalStatus} (hw : StoreOk w) (hp : Good p) :
    StoreOk (updateIfStatus w commitment p expected).2 := by
  rw [updateIfStatus]
  split
  · exact hw
  · split
    · refine storeOk_update hw ?_
      rintro _ ⟨⟩
      exact ⟨rfl, hp⟩
    · exact hw

theorem admitProposal_storeOk {w : Store N} {commitment : String} {p : Proposal N} (hw : StoreOk w)
    (hp : Good p) : StoreOk (admitProposal w commitment p).2 := by
  rw [admitProposal]
  split
  · exact hw
  · refine storeOk_update hw ?_
    rintro _ ⟨⟩
    exact ⟨rfl, hp⟩

theorem delete_storeOk {w : Store N} {key : String × String} (hw : StoreOk w) :
    StoreOk (Function.update w key none) :=
  storeOk_update hw fun p hp => by cases hp

/-- Every call keeps the store good, if its write is. -/
theorem exec_storeOk (pid : Nat) {op : Op N} {ch : Choice} {w w' : Store N} {r : Res op}
    (hok : WriteOk op) (h : exec pid op ch w = some (r, w')) (hw : StoreOk w) : StoreOk w' := by
  cases op with
  | resolveAccount | checkPush | now | pullDeltaProposal =>
    cases ch <;> cases h <;> exact hw
  | updateDeltaProposalIfStatus commitment p expected =>
    cases ch <;> cases h
    · exact updateIfStatus_storeOk hw hok.1
    · exact updateIfStatus_storeOk hw hok.1
    · exact hw
  | admitDeltaProposal commitment p =>
    cases ch <;> cases h
    · exact hw
    · exact admitProposal_storeOk hw hok
    · exact admitProposal_storeOk hw hok
    · exact hw
  | deleteDeltaProposal accountId commitment =>
    cases ch <;> cases h
    · exact delete_storeOk hw
    · exact delete_storeOk hw
    · exact hw

theorem kept : (discipline N).Kept (machine N) (anyRun N) (fun _ _ _ => True) where
  call := fun {pid} _ _ _ _ _ _ hok _ hx hw =>
    ⟨exec_storeOk pid hok hx hw, fun _ => trivial⟩
  act := fun {a} => nomatch a

section Handlers
variable {pid : Nat} {w : Store N} {α β : Type}

/-- The procedure makes only good writes, and where it returns a value, `Q` holds
of it. -/
def Writes (pid : Nat) (x : Handler N α) (Q : α → Prop) : Prop :=
  ∀ w, (discipline N).Ensures (machine N) (anyRun N) pid x (fun a _ => Q a) (fun _ => True) w

theorem Writes.pure {a : α} {Q : α → Prop} (h : Q a) : Writes pid (pure a : Handler N α) Q :=
  fun _ => h

theorem Writes.throw {Q : α → Prop} (e : ProposalError) :
    Writes pid (throw e : Handler N α) Q := fun _ => trivial

theorem Writes.bind {x : Handler N α} {f : α → Handler N β} {Q : α → Prop} {R : β → Prop}
    (hx : Writes pid x Q) (hf : ∀ a, Q a → Writes pid (f a) R) : Writes pid (x >>= f) R :=
  fun w => Rely.Ensures.bind' ((hx w).mono fun a w' ha => hf a ha w')

theorem Writes.orFail {ε : Type} {x : Except ε α} {wrap : ε → ProposalError} :
    Writes pid (Handler.orFail x wrap : Handler N α) (fun a => x = .ok a) := by
  cases x with
  | ok a => exact fun _ => rfl
  | error e => exact fun _ => trivial

/-- A call whose write is good, and what its answer is in a good store. -/
theorem Writes.call {o : Op N} {Q : Res o → Prop} (hok : WriteOk o)
    (hQ : ∀ ch w r w', StoreOk w → exec pid o ch w = some (r, w') → Q r) :
    Writes pid (Handler.call o) Q :=
  fun _ => Rely.Ensures.op' fun w₁ _ hi => ⟨hok, fun ch r w₂ _ hx _ => hQ ch w₁ r w₂ hi hx⟩

theorem Writes.call_any {o : Op N} (hok : WriteOk o) :
    Writes pid (Handler.call o) (fun _ => True) :=
  .call hok fun _ _ _ _ _ _ => trivial

theorem writes_pull (accountId commitment : String) :
    Writes pid (Handler.call (.pullDeltaProposal accountId commitment : Op N))
      (fun found => ∀ p, found = some p → Good p) := by
  refine .call trivial fun ch w r w' hw hx p hp => ?_
  cases ch <;> cases hx
  · exact (hw _ p hp).2
  · cases hp

theorem writes_loadPendingProposal (accountId commitment : String) :
    Writes pid (loadPendingProposal accountId commitment : Handler N _) Good := by
  refine .bind (writes_pull accountId commitment) fun found hfound => ?_
  cases found with
  | none => exact .throw _
  | some p =>
    dsimp only
    cases p.status with
    | other status => exact .throw _
    | pending timestamp proposerId sigs =>
      dsimp only
      split
      · exact .pure (hfound p rfl)
      · exact .throw _

theorem writes_resolveActive (accountId : String) :
    Writes pid (resolveActive accountId : Handler N _) (fun _ => True) := by
  refine .bind (.call_any trivial) fun answer _ => .bind .orFail fun resolved _ => ?_
  split
  · exact .throw _
  · split
    · exact .throw _
    · split
      · exact .throw _
      · exact .pure trivial

theorem writes_signLoop (accountId commitment signer : String) (signature : ProposalSignature)
    (attempts : Nat) {p : Proposal N} (hp : Good p) :
    Writes pid (signLoop accountId commitment signer signature attempts p) (fun _ => True) := by
  induction attempts generalizing p with
  | zero => exact .throw _
  | succ attempts ih =>
    refine .bind (.call_any trivial) fun now _ => .bind .orFail fun signed hsigned => ?_
    obtain ⟨-, happrovals, hgood⟩ := withApproval_spec hsigned
    refine .bind (.call_any ⟨hgood hp, _, happrovals⟩) fun answer _ => ?_
    refine .bind .orFail fun committed _ => ?_
    split
    · exact .pure trivial
    · exact .bind (writes_loadPendingProposal accountId commitment) fun current hcurrent =>
        ih hcurrent

theorem writes_signDeltaProposal (server : Server N) (accountId commitment : String)
    (signature : ProposalSignature) :
    Writes pid (signDeltaProposal server accountId commitment signature) (fun _ => True) := by
  refine .bind .orFail fun commitment _ => .bind (writes_resolveActive accountId) fun resolved _ => ?_
  refine .bind (writes_loadPendingProposal accountId commitment) fun p hp => ?_
  refine .bind .orFail fun signer _ => .bind .orFail fun _ _ => ?_
  exact writes_signLoop accountId commitment signer signature maxSignAttempts hp

theorem writes_pushDeltaProposal (server : Server N) (accountId : String) (nonce : Nonce)
    (deltaPayload : Value N) :
    Writes pid (pushDeltaProposal server accountId nonce deltaPayload) (fun _ => True) := by
  refine .bind .orFail fun payload _ => .bind (writes_resolveActive accountId) fun resolved _ => ?_
  refine .bind (.call_any trivial) fun answer _ => .bind .orFail fun checked _ => ?_
  refine .bind (.call_any trivial) fun signedAt _ => .bind .orFail fun sigs hsigs => ?_
  refine .bind (.call_any trivial) fun timestamp _ => ?_
  obtain ⟨added, rfl, hcarries, hlength⟩ := creationSignatures_spec hsigs
  refine .bind (.call_any ⟨?_, hcarries⟩) fun answer _ => .bind .orFail fun write _ => ?_
  · have hone : sigs.length ≤ 1 := hlength (Nat.zero_le 1)
    show sigs.Pairwise _
    match sigs, hone with
    | [], _ => exact List.Pairwise.nil
    | [a], _ => exact List.pairwise_singleton _ a
  · cases write with
    | stored => exact .pure trivial
    | alreadyStored => exact .bind (.call_any trivial) fun _ _ => .pure trivial
    | pendingLimit limit => exact .throw _
    | accountRequestBytesLimit limit used => exact .throw _

/-- Every program makes only good writes. -/
theorem wp_handle (servers : Nat → Server N) (req : Request N) :
    (discipline N).wp (machine N) (anyRun N) pid (handle servers req) (fun _ _ => True) w := by
  cases req with
  | sign replica accountId commitment signature =>
    exact Rely.wp_bind (Rely.wp_mono
      (writes_signDeltaProposal (servers replica) accountId commitment signature w)
      fun _ _ _ => trivial)
  | push replica accountId nonce deltaPayload =>
    exact Rely.wp_bind (Rely.wp_mono
      (writes_pushDeltaProposal (servers replica) accountId nonce deltaPayload w)
      fun _ _ _ => trivial)
  | delete accountId commitment => exact fun w₁ _ _ => ⟨trivial, fun _ _ _ _ _ _ => trivial⟩

end Handlers

/-! ## What a success means -/

/-- Any answers at all. -/
def anyAnswers (N : Type) : Contract (Op N) Res := ⟨fun _ _ => True, fun _ _ => True⟩

/-- The last call was the conditional write of the proposal, it committed, and
what it added is the approval. -/
def Committed (signature : ProposalSignature) (p : Proposal N) (h : History (Op N) Res) : Prop :=
  ∃ commitment expected rest now signer,
    h = ⟨.updateDeltaProposalIfStatus commitment p expected, Except.ok true⟩ :: rest ∧
      p.status.approvals.getLast? = some ⟨signature, now, signer⟩

section Success
variable {α β : Type} {h : History (Op N) Res}

theorem returns_any (x : Handler N α) (h : History (Op N) Res) :
    (anyAnswers N).Returns x (fun _ _ => True) h := by
  suffices ∀ {γ : Type} (p : Prog (Op N) Res γ) (h : History (Op N) Res),
      (anyAnswers N).Meets p (fun _ _ => True) h from
    (this x.run h).mono fun _ _ _ _ _ => trivial
  intro γ p h
  induction p generalizing h with
  | done a => trivial
  | call o k ih => exact ⟨trivial, fun r _ => ih r _⟩

theorem returns_orFail {ε : Type} {x : Except ε α} {wrap : ε → ProposalError} :
    (anyAnswers N).Returns (Handler.orFail x wrap : Handler N α)
      (fun a h' => x = .ok a ∧ h' = h) h := by
  cases x with
  | ok a => exact Contract.Returns.pure' ⟨rfl, rfl⟩
  | error e => exact Contract.Returns.throw' _

theorem returns_signLoop (accountId commitment signer : String) (signature : ProposalSignature)
    (attempts : Nat) (p : Proposal N) :
    (anyAnswers N).Returns (signLoop accountId commitment signer signature attempts p)
      (Committed signature) h := by
  induction attempts generalizing p h with
  | zero => exact Contract.Returns.throw' _
  | succ attempts ih =>
    refine Contract.Returns.seq (returns_any _ h) fun now h₁ _ _ => ?_
    refine Contract.Returns.seq returns_orFail fun signed h₂ _ hsigned => ?_
    obtain ⟨-, happrovals, -⟩ := withApproval_spec hsigned.1
    refine Contract.Returns.bind' (Contract.Returns.op' trivial fun answer _ => ?_)
    refine Contract.Returns.seq returns_orFail fun committed h₃ _ hcommitted => ?_
    obtain ⟨hanswer, rfl⟩ := hcommitted
    split
    · rename_i htrue
      refine Contract.Returns.pure' ⟨commitment, p.status, h₂, now, signer, ?_, ?_⟩
      · rw [hanswer, htrue]
      · rw [happrovals, List.getLast?_append, List.getLast?_singleton]
        rfl
    · exact Contract.Returns.seq (returns_any _ _) fun current h₄ _ _ => ih current

theorem returns_signDeltaProposal (server : Server N) (accountId commitment : String)
    (signature : ProposalSignature) :
    (anyAnswers N).Returns (signDeltaProposal server accountId commitment signature)
      (Committed signature) h := by
  refine Contract.Returns.seq (returns_any _ h) fun commitment h₁ _ _ => ?_
  refine Contract.Returns.seq (returns_any _ h₁) fun resolved h₂ _ _ => ?_
  refine Contract.Returns.seq (returns_any _ h₂) fun p h₃ _ _ => ?_
  refine Contract.Returns.seq (returns_any _ h₃) fun signer h₄ _ _ => ?_
  refine Contract.Returns.seq (returns_any _ h₄) fun _ h₅ _ _ => ?_
  exact returns_signLoop accountId commitment signer signature maxSignAttempts p

end Success

/-! ## Every run -/

section Runs
variable {servers : Nat → Server N} {c : Conf (Op N) Res (Store N) (Request N)}

/-- No proposals are stored. -/
def emptyStore (N : Type) : Store N := fun _ => none

theorem reach_ok (h : Reach (machine N) (handle servers) (anyRun N) (emptyStore N) c) :
    StoreOk c.world ∧ ∀ {pid req op k}, c.procs pid = some (req, .call op k) → WriteOk op := by
  obtain ⟨hstore, hprocs⟩ := Rely.reach kept (fun _ _ => trivial)
    (fun key p hp => by cases hp) (fun _ _ _ _ => wp_handle servers _) h
  exact ⟨hstore, fun hp => (hprocs hp c.world trivial hstore).1⟩

/-- The acknowledged approvals are in the stored proposal. -/
def AckedStored (w : Store N) (acked : String × String → List CosignerSignature) : Prop :=
  ∀ key a, a ∈ acked key → ∃ p, w key = some p ∧ a ∈ p.status.approvals

theorem ackedStored_update {w : Store N} {acked : String × String → List CosignerSignature}
    {key : String × String} {row : Option (Proposal N)} {sigs : List CosignerSignature}
    (h : AckedStored w acked)
    (hkey : ∀ a ∈ sigs, ∃ p, row = some p ∧ a ∈ p.status.approvals) :
    AckedStored (Function.update w key row) (Function.update acked key sigs) := by
  intro key' a ha
  by_cases hk : key' = key
  · subst hk
    rw [Function.update_self] at ha ⊢
    exact hkey a ha
  · rw [Function.update_of_ne hk] at ha ⊢
    exact h key' a ha

/-- A replacement keeps what the status it was conditional on had. -/
theorem ackedStored_replaced {w : Store N} {acked : String × String → List CosignerSignature}
    {commitment : String} {p : Proposal N} {expected : ProposalStatus}
    (hok : ∃ a, p.status.approvals = expected.approvals ++ [a]) (h : AckedStored w acked) :
    AckedStored (updateIfStatus w commitment p expected).2
      (if (updateIfStatus w commitment p expected).1 then
        Function.update acked (p.accountId, commitment)
          (p.status.approvals.getLast?.toList ++ acked (p.accountId, commitment))
      else acked) ∧
    AckedStored (updateIfStatus w commitment p expected).2 acked := by
  obtain ⟨new, hnew⟩ := hok
  rw [updateIfStatus]
  split
  · exact ⟨h, h⟩
  · rename_i stored hstored
    split
    · rename_i hexpected
      -- The compared status holds every approval acknowledged so far.
      have hold : ∀ a ∈ acked (p.accountId, commitment), a ∈ p.status.approvals := by
        intro a ha
        obtain ⟨q, hq, hmem⟩ := h _ a ha
        rw [hstored] at hq
        cases hq
        rw [hnew, ← hexpected]
        exact List.mem_append_left _ hmem
      refine ⟨ackedStored_update h fun a ha => ⟨p, rfl, ?_⟩, ?_⟩
      · obtain ha | ha := List.mem_append.mp ha
        · rw [hnew, List.getLast?_append, List.getLast?_singleton] at ha
          rw [hnew, List.mem_append]
          exact .inr ha
        · exact hold a ha
      · have hupdate : AckedStored (Function.update w (p.accountId, commitment) (some p))
            (Function.update acked (p.accountId, commitment) (acked (p.accountId, commitment))) :=
          ackedStored_update h fun a ha => ⟨p, rfl, hold a ha⟩
        rwa [Function.update_eq_self] at hupdate
    · exact ⟨h, h⟩

theorem admitProposal_ackedStored {w : Store N} {acked : String × String → List CosignerSignature}
    {commitment : String} {p : Proposal N} (h : AckedStored w acked) :
    AckedStored (admitProposal w commitment p).2 acked := by
  rw [admitProposal]
  split
  · exact h
  · rename_i hnone
    intro key a ha
    obtain ⟨q, hq, hmem⟩ := h key a ha
    refine ⟨q, ?_, hmem⟩
    show Function.update w (p.accountId, commitment) (some p) key = some q
    rw [Function.update_of_ne]
    · exact hq
    · rintro rfl
      rw [hnone] at hq
      cases hq

theorem exec_ackedStored (pid : Nat) {op : Op N} {ch : Choice} {w w' : Store N} {r : Res op}
    {acked : String × String → List CosignerSignature} (hok : WriteOk op)
    (hx : exec pid op ch w = some (r, w')) (h : AckedStored w acked) :
    AckedStored w' (noteAcked pid op ch w acked) := by
  cases op with
  | resolveAccount | checkPush | now | pullDeltaProposal =>
    cases ch <;> cases hx <;> exact h
  | updateDeltaProposalIfStatus commitment p expected =>
    cases ch <;> cases hx
    · exact (ackedStored_replaced hok.2 h).1
    · exact (ackedStored_replaced hok.2 h).2
    · exact h
  | admitDeltaProposal commitment p =>
    cases ch <;> cases hx
    · exact h
    · exact admitProposal_ackedStored h
    · exact admitProposal_ackedStored h
    · exact h
  | deleteDeltaProposal accountId commitment =>
    cases ch <;> cases hx
    · exact ackedStored_update h fun a ha => absurd ha List.not_mem_nil
    · exact ackedStored_update h fun a ha => absurd ha List.not_mem_nil
    · exact h

/-- In every state of every run, with any number of requests on any number of
replicas: every acknowledged approval is stored until its proposal is deleted; no
signer of a stored proposal appears twice, and its payload lists exactly the
signatures of its status. A signing that succeeds was acknowledged: its last call
is the write that added its approval, and the answer was that it committed. -/
theorem acked_approval_kept {acked : String × String → List CosignerSignature}
    (h : Recorded (machine N) (handle servers) (anyRun N) noteAcked (emptyStore N) (fun _ => []) c
      acked) :
    (∀ key a, a ∈ acked key → ∃ p, c.world key = some p ∧ a ∈ p.status.approvals) ∧
    (∀ key p, c.world key = some p →
      p.status.approvals.Pairwise (fun a b =>
        Multisig.eqIgnoreAsciiCase a.signerId b.signerId = false) ∧
      List.Forall₂ Carries (payloadSignatures p.deltaPayload) p.status.approvals) ∧
    ∀ replica accountId commitment signature calls signed,
      (anyAnswers N).After
          (signDeltaProposal (servers replica) accountId commitment signature).run calls
          (.done (.ok signed)) →
        Committed signature signed calls := by
  refine ⟨?_, fun key p hp => ?_, ?_⟩
  · exact Recorded.induct (K := fun _ op _ => WriteOk op) (fun hr hp => (reach_ok hr).2 hp)
      (fun key a ha => absurd ha List.not_mem_nil)
      (fun {pid _ _ _ _ _ _} hok _ hx hw => exec_ackedStored pid hok hx hw)
      (fun {a} => nomatch a) h
  · have hgood := ((reach_ok h.reach).1 key p hp).2
    exact ⟨hgood.distinct, hgood.inStep⟩
  · intro replica accountId commitment signature calls signed hafter
    exact (returns_signDeltaProposal (servers replica) accountId commitment signature).rest hafter
      signed rfl

end Runs

namespace TwoSigners

/-- Falcon signatures of one byte, `07` and `08`. -/
def crypto : Multisig.Crypto :=
  { Multisig.BareSlots.crypto with
    hexDecode := fun text =>
      if text = ['0', '7'] then .ok [7] else if text = ['0', '8'] then .ok [8]
      else .error "invalid hex" }

def server (_replica : Nat) : Server Nat where
  crypto := crypto
  payloadText := fun _ => "payload"
  normalizeCommitmentHex := .ok
  normalizePayload := .ok

/-- The signer of a one byte signature. -/
def signer (key : Nat) : String := Multisig.commitmentHex (Multisig.Word.ofIndex key)

def account : ResolvedAccount where
  auth := .midenFalconRpo [signer 7, signer 8]
  isEvm := false
  releasedAt := none
  pausedAt := none
  signerCommitment := signer 7

def resolve (pid : Nat) : Event (Request Nat) Choice Act := .run pid (.resolved (.ok account))

/-- A push, then two signings on two replicas: the second writes first, and the
first loses its write, reads again and writes. -/
def events : List (Event (Request Nat) Choice Act) :=
  [.spawn 0 (.push 0 "acc" 1 (.obj [])), resolve 0, .run 0 (.checked (.ok ⟨"c0", "p"⟩)),
    .run 0 (.clock 1), .run 0 (.clock 1), .run 0 .done,
    .spawn 1 (.sign 1 "acc" "p" (.falcon "07")), .spawn 2 (.sign 2 "acc" "p" (.falcon "08")),
    resolve 1, resolve 2, .run 1 .done, .run 2 .done, .run 1 (.clock 2), .run 2 (.clock 3),
    .run 2 .done, .run 1 .done, .run 1 .done, .run 1 (.clock 4), .run 1 .done]

def final : Option (Conf (Op Nat) Res (Store Nat) (Request Nat) ×
    (String × String → List CosignerSignature)) :=
  runRecorded (machine Nat) (handle server) (anyRun Nat) noteAcked
    (Conf.start (emptyStore Nat)) (fun _ => []) events

end TwoSigners

/-- Both approvals are acknowledged, and both are stored. -/
theorem acked_approval_kept_two_signers :
    ∃ c acked p,
      Recorded (machine Nat) (handle TwoSigners.server) (anyRun Nat) noteAcked (emptyStore Nat)
        (fun _ => []) c acked ∧
      acked ("acc", "p") = [⟨.falcon "07", 4, TwoSigners.signer 7⟩,
        ⟨.falcon "08", 3, TwoSigners.signer 8⟩] ∧
      c.world ("acc", "p") = some p ∧ ∀ a ∈ acked ("acc", "p"), a ∈ p.status.approvals := by
  have hfinal : (TwoSigners.final.map fun x => (x.2 ("acc", "p"), (x.1.world ("acc", "p")).isSome)) =
      some ([⟨.falcon "07", 4, TwoSigners.signer 7⟩, ⟨.falcon "08", 3, TwoSigners.signer 8⟩],
        true) := by decide +kernel
  obtain ⟨⟨c, acked⟩, hrun, hx⟩ := Option.map_eq_some_iff.mp hfinal
  obtain ⟨hacked, hsome⟩ := Prod.mk.inj hx
  obtain ⟨p, hp⟩ := Option.isSome_iff_exists.mp hsome
  have hrec := Recorded.init.runRecorded hrun
  refine ⟨c, acked, p, hrec, hacked, hp, fun a ha => ?_⟩
  obtain ⟨q, hq, hmem⟩ := (acked_approval_kept hrec).1 _ a ha
  have hsame : p = q := Option.some.inj (hp.symm.trans hq)
  rwa [hsame]

end Guardian.Proposals
