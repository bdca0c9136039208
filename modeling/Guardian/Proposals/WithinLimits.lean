import Guardian.Lib.Rely
import Guardian.Proposals.Capacity
import Mathlib.Algebra.Order.BigOperators.Group.List
import Mathlib.Algebra.Order.Group.Nat

/- The limits of concurrent pushes.

   Whoever holds the lock can rely on this: the others add no proposal, change no
   nonce and no base, and write no size. So what an admission counted can only have
   shrunk when it stores its proposal, and the limits hold right after. A push that
   is refused counted the limit in a state it saw.

   Three things can spoil it, and the runs here are those without them (`fits`).
   Postgres compares nonces as signed columns, which orders them as the `u64`s they
   are only on one side of `2^63`. On the filesystem a pending proposal that is
   pushed again is not recognised, and refused where the account is at its limit.
   And a signature compares only the status of the proposal it read: if that was
   deleted and pushed again with the same status, it may write another nonce and
   base back. -/
namespace Guardian.Capacity

open Interleaving

/-! ## Names of proposals -/

theorem digits_ne_nil {bytes : List UInt8} (h : bytes ≠ []) :
    (Replay.hexEncode bytes).toList ≠ [] := by
  cases bytes with
  | nil => exact absurd rfl h
  | cons b bs =>
    rw [Replay.hexEncode, String.toList_ofList, List.flatMap_cons]
    exact List.cons_ne_nil _ _

theorem hexDigits_isAsciiHexdigit : ∀ c ∈ Replay.hexDigits, isAsciiHexdigit c = true :=
  List.all_eq_true.mp (by decide)

/-- Hex digits start with no `0x`. -/
theorem stripHexPrefix_digits {digits : List Char} (h : ∀ c ∈ digits, c ∈ Replay.hexDigits) :
    stripHexPrefix digits = digits := by
  unfold stripHexPrefix
  split
  · exact absurd (h 'x' (List.mem_cons_of_mem _ List.mem_cons_self)) (by decide)
  · exact absurd (h 'X' (List.mem_cons_of_mem _ List.mem_cons_self)) (by decide)
  · rfl

theorem trimStart0x_digits {digits : List Char} (h : ∀ c ∈ digits, c ∈ Replay.hexDigits) :
    trimStart0x digits = digits := by
  unfold trimStart0x
  split
  · exact absurd (h 'x' (List.mem_cons_of_mem _ List.mem_cons_self)) (by decide)
  · rfl

theorem toBytes_ne_nil (word : Multisig.Word) : word.toBytes ≠ [] := by
  intro h
  have hlength := congrArg List.length h
  simp only [Multisig.Word.toBytes, List.length_append, Multisig.length_feltBytes,
    List.length_nil] at hlength
  omega

theorem commitmentHex_toList (word : Multisig.Word) :
    (Multisig.commitmentHex word).toList = '0' :: 'x' :: (Replay.hexEncode word.toBytes).toList := by
  rw [Multisig.commitmentHex, Replay.signerCommitment, String.toList_append]
  rfl

theorem fileName_commitmentHex (word : Multisig.Word) :
    fileName (Multisig.commitmentHex word) = Replay.hexEncode word.toBytes := by
  rw [fileName, commitmentHex_toList]
  exact String.ofList_toList

theorem normalizeCommitmentHex_of_digits {commitment : String} {bytes : List UInt8}
    (hbytes : bytes ≠ [])
    (h : stripHexPrefix commitment.toList = (Replay.hexEncode bytes).toList) :
    normalizeCommitmentHex commitment = .ok ("0x" ++ Replay.hexEncode bytes) := by
  have hall : (Replay.hexEncode bytes).toList.all isAsciiHexdigit = true :=
    List.all_eq_true.mpr fun c hc => hexDigits_isAsciiHexdigit c (Replay.hexEncode_digits hc)
  rw [normalizeCommitmentHex, h]
  rw [if_neg (by simpa using digits_ne_nil hbytes), hall, if_neg (by decide), String.ofList_toList]

theorem key_of_digits {commitment : String} {bytes : List UInt8} (hbytes : bytes ≠ [])
    (h : stripHexPrefix commitment.toList = (Replay.hexEncode bytes).toList) :
    key commitment = .ok (Replay.hexEncode bytes) := by
  have htrim : trimStart0x ("0x" ++ Replay.hexEncode bytes).toList =
      (Replay.hexEncode bytes).toList := by
    rw [String.toList_append]
    exact trimStart0x_digits fun c hc => Replay.hexEncode_digits hc
  rw [key, normalizeCommitmentHex_of_digits hbytes h]
  show Except.ok (String.ofList (trimStart0x _)) = _
  rw [htrim, String.ofList_toList]

/-- The filesystem names a proposal by its file, whether it has the id or the file
name. -/
theorem key_commitmentHex (word : Multisig.Word) :
    key (Multisig.commitmentHex word) = .ok (fileName (Multisig.commitmentHex word)) := by
  rw [fileName_commitmentHex]
  refine key_of_digits (toBytes_ne_nil word) ?_
  rw [commitmentHex_toList]
  rfl

theorem key_fileName (word : Multisig.Word) :
    key (fileName (Multisig.commitmentHex word)) =
      .ok (fileName (Multisig.commitmentHex word)) := by
  rw [fileName_commitmentHex]
  exact key_of_digits (toBytes_ne_nil word)
    (stripHexPrefix_digits fun c hc => Replay.hexEncode_digits hc)

theorem fileName_inj {v w : Multisig.Word}
    (h : fileName (Multisig.commitmentHex v) = fileName (Multisig.commitmentHex w)) : v = w := by
  rw [fileName_commitmentHex, fileName_commitmentHex] at h
  exact Multisig.Word.toBytes_inj (Multisig.hexEncode_inj h)

/-- The column orders this nonce and the tail as the `u64`s they are: they are on
the same side of `2^63`; without a tail, the nonce is not `2^63`, whose column is
the least. -/
def sameSide (tail : Option Nonce) (nonce : Nonce) : Bool :=
  match tail with
  | none => !(nonce == BitVec.intMin 64)
  | some tail => nonce.msb == tail.msb

theorem column_lt_iff (tail nonce : Nonce) :
    (nonceColumn tail < nonceColumn nonce ↔ tail < nonce) ↔ nonce.msb = tail.msb := by
  have hslt : nonceColumn tail < nonceColumn nonce ↔ tail.slt nonce = true := by
    rw [BitVec.slt, decide_eq_true_iff]
    rfl
  have hult : tail < nonce ↔ tail.ult nonce = true := by
    rw [BitVec.ult, decide_eq_true_iff]
    exact BitVec.lt_def
  rw [hslt, hult, BitVec.slt_eq_ult]
  cases tail.msb <;> cases nonce.msb <;> cases tail.ult nonce <;> decide

theorem least_lt_column_iff (nonce : Nonce) :
    -2^63 < nonceColumn nonce ↔ nonce ≠ BitVec.intMin 64 := by
  have hle : -2^63 ≤ nonceColumn nonce := BitVec.le_toInt nonce
  have hmin : nonceColumn (BitVec.intMin 64) = -2^63 := by decide
  constructor
  · rintro hlt rfl
    omega
  · intro hne
    have hcol : nonceColumn nonce ≠ -2^63 := fun h => hne (nonceColumn_inj (h.trans hmin.symm))
    omega

/-- Exactly then the two backends agree on whether the nonce is past the tail. -/
theorem sameSide_iff {tail : Option Nonce} {nonce : Nonce} :
    sameSide tail nonce = true ↔
      decide (doomedAtOrBelow tail < nonceColumn nonce) = pastTail tail nonce := by
  cases tail with
  | none =>
    show (!(nonce == BitVec.intMin 64)) = true ↔ decide (-2^63 < nonceColumn nonce) = true
    rw [decide_eq_true_iff, least_lt_column_iff, Bool.not_eq_true', beq_eq_false_iff_ne]
  | some tail =>
    show (nonce.msb == tail.msb) = true ↔
      decide (nonceColumn tail < nonceColumn nonce) = decide (tail < nonce)
    rw [beq_iff_eq, decide_eq_decide, column_lt_iff]

/-- Every pending proposal on the base is on the tail's side. -/
def comparable (j : Judged) (w : World) : Bool :=
  w.proposals.all fun r =>
    !(r.proposal.status.isPending && r.proposal.prevCommitment == j.base) ||
      sameSide j.tail r.proposal.nonce

theorem columnViable_eq {j : Judged} {r : ProposalRecord}
    (h : (!(r.proposal.status.isPending && r.proposal.prevCommitment == j.base) ||
      sameSide j.tail r.proposal.nonce) = true) : j.columnViable r = j.viable r := by
  rw [Judged.columnViable, Judged.viable]
  cases hpending : r.proposal.status.isPending with
  | false => rfl
  | true =>
    cases hbase : r.proposal.prevCommitment == j.base with
    | false => rfl
    | true =>
      rw [hpending, hbase] at h
      rw [sameSide_iff.mp h]

/-- Then Postgres counts the viable proposals. -/
theorem filter_columnViable {j : Judged} {w : World} (h : comparable j w = true) :
    w.proposals.filter j.columnViable = w.viable j :=
  List.filter_congr fun r hr => columnViable_eq (List.all_eq_true.mp h r hr)

/-! ## What shrinks -/

/-- What the limits depend on of a stored proposal. -/
structure Facts where
  commitment : Commitment
  nonce : Nonce
  base : Commitment
  pending : Bool

def factsOf (r : ProposalRecord) : Facts where
  commitment := r.commitment
  nonce := r.proposal.nonce
  base := r.proposal.prevCommitment
  pending := r.proposal.status.isPending

def Facts.viable (j : Judged) (f : Facts) : Bool :=
  f.pending && (f.base == j.base && pastTail j.tail f.nonce)

/-- Nothing was added, and no size written. -/
structure Shrunk (w w' : World) : Prop where
  lock : w'.lock = w.lock
  facts : (w'.proposals.map factsOf).Sublist (w.proposals.map factsOf)
  requestBytes : w'.requestBytes = w.requestBytes
  sizes : w'.sizes = w.sizes

theorem Shrunk.refl (w : World) : Shrunk w w := ⟨rfl, List.Sublist.refl _, rfl, rfl⟩

theorem Shrunk.trans {w w' w'' : World} (h : Shrunk w w') (h' : Shrunk w' w'') : Shrunk w w'' :=
  ⟨h'.lock.trans h.lock, h'.facts.trans h.facts, h'.requestBytes.trans h.requestBytes,
    h'.sizes.trans h.sizes⟩

theorem viable_facts (w : World) (j : Judged) :
    (w.viable j).map factsOf = (w.proposals.map factsOf).filter (Facts.viable j) := by
  rw [World.viable, List.filter_map]
  rfl

theorem Shrunk.viable {w w' : World} (h : Shrunk w w') (j : Judged) :
    ((w'.viable j).map factsOf).Sublist ((w.viable j).map factsOf) := by
  rw [viable_facts, viable_facts]
  exact h.facts.filter _

theorem Shrunk.length_le {w w' : World} (h : Shrunk w w') (j : Judged) :
    (w'.viable j).length ≤ (w.viable j).length := by
  have hle := (h.viable j).length_le
  rwa [List.length_map, List.length_map] at hle

/-- The bytes recorded for a proposal, by what the limits depend on. -/
def bytesOf (w : World) (backend : Backend) (f : Facts) : Nat :=
  match backend with
  | .postgres => w.requestBytes f.commitment
  | .filesystem => (w.sizes (fileName f.commitment)).getD 0

theorem recordedBytes_eq (w : World) (backend : Backend) (r : ProposalRecord) :
    w.recordedBytes backend r = bytesOf w backend (factsOf r) := by
  cases backend with
  | postgres => rfl
  | filesystem => rfl

theorem usedBytes_eq (w : World) (backend : Backend) (j : Judged) :
    w.usedBytes backend j = (((w.viable j).map factsOf).map (bytesOf w backend)).sum := by
  rw [World.usedBytes, List.map_map]
  exact congrArg List.sum (List.map_congr_left fun r _ => recordedBytes_eq w backend r)

theorem bytesOf_congr {w w' : World} {backend : Backend} (hcolumn : w'.requestBytes = w.requestBytes)
    (hsizes : w'.sizes = w.sizes) : bytesOf w' backend = bytesOf w backend := by
  funext f
  cases backend with
  | postgres => exact congrFun hcolumn f.commitment
  | filesystem => exact congrArg (Option.getD · 0) (congrFun hsizes (fileName f.commitment))

theorem Shrunk.usedBytes_le {w w' : World} (h : Shrunk w w') (backend : Backend) (j : Judged) :
    w'.usedBytes backend j ≤ w.usedBytes backend j := by
  rw [usedBytes_eq, usedBytes_eq, bytesOf_congr h.requestBytes h.sizes]
  exact ((h.viable j).map _).sum_le_sum fun _ _ => Nat.zero_le _

theorem has_iff (w : World) (commitment : Commitment) :
    w.has commitment = true ↔ commitment ∈ (w.proposals.map factsOf).map Facts.commitment := by
  rw [World.has, List.any_eq_true, List.map_map, List.mem_map]
  constructor
  · rintro ⟨r, hr, heq⟩
    exact ⟨r, hr, beq_iff_eq.mp heq⟩
  · rintro ⟨r, hr, heq⟩
    exact ⟨r, hr, beq_iff_eq.mpr heq⟩

theorem Shrunk.has {w w' : World} (h : Shrunk w w') {commitment : Commitment}
    (hnew : w.has commitment = false) : w'.has commitment = false := by
  rw [← Bool.not_eq_true] at hnew ⊢
  intro hhas
  exact hnew ((has_iff w commitment).mpr ((h.facts.map _).subset ((has_iff w' commitment).mp hhas)))

/-! ## Which runs -/

/-- The proposal a push judges is not stored, or stores nothing new. -/
def Judged.stored (j : Judged) (w : World) : Bool :=
  match j.commitment with
  | some commitment => w.has commitment
  | none => false

/-- A signature writes back the nonce and the base it finds. -/
def rewritesSame (commitment : Commitment) (read : DeltaObject) (w : World) : Bool :=
  w.proposals.all fun r => !unchangedSince commitment read r ||
    (r.proposal.nonce == read.nonce && r.proposal.prevCommitment == read.prevCommitment)

/-- Postgres counts and sums comparable nonces; the filesystem is not asked for a
pending proposal again when the account is at its limit; signatures write back the
nonce and base they find. -/
def fits (backend : Backend) : Guard Op Request World Choice Act where
  spawn := fun _ _ => true
  call := fun _ op _ w =>
    match backend, op with
    | .postgres, .viableCount a => comparable (judgedOf a) w
    | .postgres, .viableBytes a => comparable (judgedOf a) w
    | .filesystem, .pullPendingProposals j =>
      !(j.stored w && decide (j.limit ≤ (w.viable j).length))
    | _, _ => true
  act := fun a w =>
    match a with
    | .sign commitment read _ _ => rewritesSame commitment read w
    | .delete _ => true

/-- The states in which a push counted, with what it was judged with. -/
abbrev Trail := Nat → List (Judged × World)

def noteJudged : Note Op World Choice Trail
  | pid, .pullPendingProposals j, .done, w, trail =>
    Function.update trail pid ((j, w) :: trail pid)
  | pid, .viableCount a, .done, w, trail =>
    Function.update trail pid ((judgedOf a, w) :: trail pid)
  | pid, .viableBytes a, .done, w, trail =>
    Function.update trail pid ((judgedOf a, w) :: trail pid)
  | pid, .loadProposalRecords a, .done, w, trail =>
    Function.update trail pid ((judgedOf a, w) :: trail pid)
  | _, _, _, _, trail => trail

/-- Every stored proposal is pending, under the id of a summary. -/
def Valid (w : World) : Prop :=
  ∀ r ∈ w.proposals, r.proposal.status.isPending = true ∧
    ∃ word, r.commitment = Multisig.commitmentHex word

/-- In a state the push saw, storing it would have exceeded the limit on
proposals. -/
def OverCount (limit : Nat) (seen : List (Judged × World)) : Prop :=
  ∃ j w, (j, w) ∈ seen ∧ j.stored w = false ∧ limit < (w.viable j).length + 1

/-- The same for the limit on bytes. -/
def OverBytes (backend : Backend) (limit : Nat) (seen : List (Judged × World)) : Prop :=
  ∃ j w bytes, (j, w) ∈ seen ∧ j.requestBytes = some bytes ∧ j.stored w = false ∧
    limit < w.usedBytes backend j + bytes

/-- A proposal that may be stored now. -/
structure Admissible (backend : Backend) (a : ProposalAdmission) (w : World) : Prop where
  new : w.has a.commitment = false
  count : (w.viable (judgedOf a)).length < a.maxViableProposals
  bytes : w.usedBytes backend (judgedOf a) + a.requestBytes ≤ a.maxAccountRequestBytes
  recorded : backend = .filesystem →
    w.sizes (fileName a.commitment) = some a.requestBytes
  pending : a.proposal.status.isPending = true
  id : ∃ word, a.commitment = Multisig.commitmentHex word

def CallOk (backend : Backend) (pid : Nat) (x : World × Trail) : Op → Prop
  | .writeRequestSizes _ => x.1.lock = some pid
  | .storeProposal a => x.1.lock = some pid ∧ Admissible backend a x.1
  | .respond (.error (.pendingProposalsLimit limit)) => OverCount limit (x.2 pid)
  | .respond (.error (.accountRequestCapacityExceeded limit _)) =>
    OverBytes backend limit (x.2 pid)
  | _ => True

/-- The others leave a process its trail, and while it holds the lock, nothing
grows. -/
def limits (backend : Backend) : Rely Op (World × Trail) where
  inv := fun x => Valid x.1
  rely := fun pid x y => y.2 pid = x.2 pid ∧ (x.1.lock = some pid → Shrunk x.1 y.1)
  ok := fun pid op x => CallOk backend pid x op
  refl := fun x => ⟨rfl, fun _ => Shrunk.refl x.1⟩
  trans := fun h h' => ⟨h'.1.trans h.1, fun hlock =>
    (h.2 hlock).trans (h'.2 ((h.2 hlock).lock.trans hlock))⟩

/-! ## What a call does -/

/-- The effect of a call on the stored proposals. -/
inductive Effect (backend : Backend) (pid : Nat) (w : World) : Op → World → Prop where
  | same {op : Op} : Effect backend pid w op w
  | released {op : Op} : Effect backend pid w op (w.released pid)
  | locked (hfree : w.lock = none) : Effect backend pid w .lock { w with lock := some pid }
  | sizes (sizes : String → Option Nat) :
    Effect backend pid w (.writeRequestSizes sizes) { w with sizes := sizes }
  | sizesReleased (sizes : String → Option Nat) :
    Effect backend pid w (.writeRequestSizes sizes) ({ w with sizes := sizes }.released pid)
  | stored (a : ProposalAdmission) :
    Effect backend pid w (.storeProposal a) ((w.stored backend a).released pid)

theorem exec_effect {backend : Backend} {pid : Nat} {op : Op} {ch : Choice} {w w' : World}
    {r : Res op} (h : exec backend pid op ch w = some (r, w')) : Effect backend pid w op w' := by
  cases op with
  | resolveAccount | loadChain | pullPendingProposals | reconstructTail | verifyDelta
  | creationSignatures | respond =>
    cases ch <;> cases h <;> exact .same
  | lock =>
    cases ch with
    | done =>
      rw [exec] at h
      split at h
      · rename_i hfree
        cases h
        exact .locked hfree
      · cases h
    | failed => cases h; exact .same
    | _ => cases h
  | release =>
    cases ch with
    | done => cases h; exact .released
    | _ => cases h
  | proposalExists | viableCount | loadProposalRecords | readRequestSizes =>
    cases ch with
    | done => cases h; exact .same
    | failed => cases h; exact .released
    | _ => cases h
  | viableBytes a =>
    cases ch with
    | done =>
      rw [exec] at h
      split at h
      · cases h; exact .same
      · cases h; exact .released
    | failed => cases h; exact .released
    | _ => cases h
  | writeRequestSizes sizes =>
    cases ch with
    | done => cases h; exact .sizes sizes
    | lost => cases h; exact .sizesReleased sizes
    | failed => cases h; exact .released
    | _ => cases h
  | storeProposal a =>
    cases ch with
    | done | lost => cases h; exact .stored a
    | failed => cases h; exact .released
    | _ => cases h
  | pullDeltaProposal commitment =>
    cases ch with
    | done =>
      rw [exec] at h
      split at h
      · cases h; exact .same
      · cases h; exact .same
    | failed => cases h; exact .same
    | _ => cases h

/-! ## Storing a proposal -/

/-- A new proposal is put after the others. -/
theorem stored_proposals {backend : Backend} {a : ProposalAdmission} {w : World}
    (hnew : w.has a.commitment = false) :
    (w.stored backend a).proposals = w.proposals ++ [⟨a.commitment, a.proposal⟩] := by
  cases backend with
  | postgres => rfl
  | filesystem =>
    have hall : ∀ r ∈ w.proposals, (!(r.commitment == a.commitment)) = true := by
      intro r hr
      rw [World.has, List.any_eq_false] at hnew
      rw [Bool.not_eq_true']
      exact Bool.eq_false_iff.mpr (hnew r hr)
    show w.proposals.filter _ ++ _ = _
    rw [List.filter_eq_self.mpr hall]

theorem stored_viable {backend : Backend} {a : ProposalAdmission} {w : World} (j : Judged)
    (hnew : w.has a.commitment = false) :
    (w.stored backend a).viable j = w.viable j ++
      [ProposalRecord.mk a.commitment a.proposal].filter j.viable := by
  rw [World.viable, stored_proposals hnew, List.filter_append]
  rfl

theorem ne_of_not_has {w : World} {commitment : Commitment} (hnew : w.has commitment = false)
    {r : ProposalRecord} (hr : r ∈ w.proposals) : r.commitment ≠ commitment := by
  rw [World.has, List.any_eq_false] at hnew
  exact fun heq => hnew r hr (beq_iff_eq.mpr heq)

/-- The bytes of the others stay. -/
theorem stored_recordedBytes {backend : Backend} {a : ProposalAdmission} {w : World}
    (hnew : w.has a.commitment = false) {r : ProposalRecord} (hr : r ∈ w.proposals) :
    (w.stored backend a).recordedBytes backend r = w.recordedBytes backend r := by
  cases backend with
  | postgres => exact Function.update_of_ne (ne_of_not_has hnew hr) _ _
  | filesystem => rfl

theorem stored_ownBytes {backend : Backend} {a : ProposalAdmission} {w : World}
    (h : Admissible backend a w) :
    (w.stored backend a).recordedBytes backend ⟨a.commitment, a.proposal⟩ = a.requestBytes := by
  cases backend with
  | postgres => exact Function.update_self _ _ _
  | filesystem =>
    show (w.sizes (fileName a.commitment)).getD 0 = _
    rw [h.recorded rfl]
    rfl

/-- Right after an admissible proposal is stored, both limits hold. -/
theorem Admissible.within {backend : Backend} {a : ProposalAdmission} {w : World}
    (h : Admissible backend a w) :
    ((w.stored backend a).viable (judgedOf a)).length ≤ a.maxViableProposals ∧
      (w.stored backend a).usedBytes backend (judgedOf a) ≤ a.maxAccountRequestBytes := by
  have hcount := h.count
  have hbytes := h.bytes
  have hothers : (w.viable (judgedOf a)).map ((w.stored backend a).recordedBytes backend) =
      (w.viable (judgedOf a)).map (w.recordedBytes backend) :=
    List.map_congr_left fun r hr => stored_recordedBytes h.new (List.mem_of_mem_filter hr)
  rw [World.usedBytes] at hbytes ⊢
  rw [stored_viable _ h.new, List.length_append, List.map_append, List.sum_append, hothers]
  by_cases hviable : (judgedOf a).viable ⟨a.commitment, a.proposal⟩ = true
  · rw [List.filter_cons_of_pos hviable, List.filter_nil, List.map_singleton, stored_ownBytes h,
      List.sum_singleton, List.length_singleton]
    exact ⟨hcount, hbytes⟩
  · rw [List.filter_cons_of_neg hviable, List.filter_nil, List.map_nil, List.sum_nil,
      List.length_nil]
    exact ⟨hcount.le, (Nat.le_add_right _ _).trans hbytes⟩

section Push
variable {backend : Backend} {pid : Nat} {α β : Type}

/-- A limit error is backed by a state the push saw. -/
def ErrorOk (backend : Backend) (pid : Nat) (e : PushError) (x : World × Trail) : Prop :=
  CallOk backend pid x (.respond (.error e))

/-- Among pushes that keep the limits, the procedure makes only calls that are in
order, ends with `Q`, and fails for a limit only if it saw it exceeded. -/
abbrev Spec (backend : Backend) (pid : Nat) (x : Handler α) (Q : α → World × Trail → Prop)
    (y : World × Trail) : Prop :=
  (limits backend).Settles ((machine backend).recorded noteJudged) (fits backend).recorded pid x Q
    (ErrorOk backend pid) y

theorem spec_call {o : Op} {Q : Res o → World × Trail → Prop} {x : World × Trail}
    (h : ∀ y, y.2 pid = x.2 pid → (x.1.lock = some pid → Shrunk x.1 y.1) → Valid y.1 →
      CallOk backend pid y o ∧
      ∀ ch r w, (fits backend).call pid o ch y.1 = true → exec backend pid o ch y.1 = some (r, w) →
        Q r (w, noteJudged pid o ch y.1 y.2)) :
    Spec backend pid (Handler.call o) Q x := by
  refine .op' fun y hrely hvalid => ?_
  obtain ⟨hok, hcall⟩ := h y hrely.1 hrely.2 hvalid
  refine ⟨hok, fun ch r z hg hx _ => ?_⟩
  obtain ⟨hexec, hnote⟩ := recorded_exec hx
  obtain ⟨w, trail⟩ := z
  obtain rfl : trail = noteJudged pid o ch y.1 y.2 := hnote
  exact hcall ch r w hg hexec

/-- A call of which nothing is needed. -/
theorem spec_any {o : Op} {x : World × Trail} (hok : ∀ y, CallOk backend pid y o) :
    Spec backend pid (Handler.call o) (fun _ _ => True) x :=
  spec_call fun y _ _ _ => ⟨hok y, fun _ _ _ _ _ => trivial⟩

theorem spec_orFail {ε : Type} {r : Except ε α} {wrap : ε → PushError} {x : World × Trail}
    (hwrap : ∀ e, r = .error e → ErrorOk backend pid (wrap e) x) :
    Spec backend pid (Handler.orFail r wrap) (fun a y => r = .ok a ∧ y = x) x := by
  cases r with
  | ok a => exact .pure' ⟨rfl, rfl⟩
  | error e => exact .throw' (hwrap e rfl)

/-- Dropping the lock does not change what the push saw. -/
theorem spec_released {answer : Except PushError α} {Q : α → World × Trail → Prop}
    {x : World × Trail} {seen : List (Judged × World)} (hseen : x.2 pid = seen)
    (herror : ∀ e y, answer = .error e → y.2 pid = seen → ErrorOk backend pid e y)
    (hok : ∀ a y, answer = .ok a → y.2 pid = seen → Q a y) :
    Spec backend pid (Handler.released answer) Q x := by
  refine .seq' (Q := fun _ y => y.2 pid = seen) (spec_call fun y htrail _ _ => ⟨trivial, ?_⟩) ?_
  · intro ch r w _ _
    exact htrail.trans hseen
  · intro _ y hy
    cases answer with
    | ok a => exact .pure' (hok a y rfl hy)
    | error e => exact .throw' (herror e y rfl hy)

/-- What an admission tells the push. -/
def WriteOk (backend : Backend) (seen : List (Judged × World)) : ProposalWrite → Prop
  | .pendingLimit limit => OverCount limit seen
  | .accountRequestBytesLimit limit _ => OverBytes backend limit seen
  | _ => True

/-- An admission of a push. -/
structure Pushed (a : ProposalAdmission) : Prop where
  pending : a.proposal.status.isPending = true
  id : ∃ word, a.commitment = Multisig.commitmentHex word
  requestBytes : a.requestBytes < 2^32
  maxAccountRequestBytes : a.maxAccountRequestBytes < 2^32

/-- The lock is held and the proposal is new. -/
structure New (pid : Nat) (a : ProposalAdmission) (w : World) : Prop where
  lock : w.lock = some pid
  new : w.has a.commitment = false

theorem New.shrunk {a : ProposalAdmission} {w w' : World} (h : New pid a w) (hw : Shrunk w w') :
    New pid a w' :=
  ⟨hw.lock.trans h.lock, hw.has h.new⟩

/-! ## Taking the lock -/

theorem spec_lock {x : World × Trail} :
    Spec backend pid (Handler.call .lock) (fun r y => r = .ok () → y.1.lock = some pid) x := by
  refine spec_call fun y _ _ _ => ⟨trivial, fun ch r w _ hx => ?_⟩
  cases ch with
  | done =>
    rw [exec] at hx
    split at hx
    · cases hx
      exact fun _ => rfl
    · cases hx
  | failed =>
    cases hx
    rintro ⟨⟩
  | _ => cases hx

/-! ## Storing, last of all -/

theorem spec_storeProposal {a : ProposalAdmission} {wrap : String → PushError}
    (hwrap : ∀ e y, ErrorOk backend pid (wrap e) y) {Q : ProposalWrite → World × Trail → Prop}
    (hQ : ∀ y, Q .stored y) {x : World × Trail} (hlock : x.1.lock = some pid)
    (h : ∀ w, Shrunk x.1 w → Admissible backend a w) :
    Spec backend pid (do
      Handler.orFail (← Handler.call (.storeProposal a)) wrap
      return ProposalWrite.stored) Q x := by
  refine .seq' (Q := fun _ _ => True) (spec_call fun y _ hshrunk _ => ⟨?_, ?_⟩) fun r y _ => ?_
  · have hw := hshrunk hlock
    exact ⟨hw.lock.trans hlock, h y.1 hw⟩
  · exact fun _ _ _ _ _ => trivial
  · refine .seq' (spec_orFail fun e _ => hwrap e y) fun _ z _ => ?_
    exact .pure' (hQ z)

/-! ## Postgres -/

theorem admitFailed_ok (e : String) (x : World × Trail) :
    ErrorOk backend pid (admitFailed e) x := trivial

theorem storageError_ok (e : String) (x : World × Trail) :
    ErrorOk backend pid (.storageError e) x := trivial

theorem spec_proposalExists {a : ProposalAdmission} {x : World × Trail}
    (hlock : x.1.lock = some pid) :
    Spec backend pid (Handler.call (.proposalExists a))
      (fun r y => r = .ok false → New pid a y.1) x := by
  refine spec_call fun y _ hshrunk _ => ⟨trivial, fun ch r w _ hx => ?_⟩
  have hheld := (hshrunk hlock).lock.trans hlock
  cases ch with
  | done =>
    cases hx
    intro hr
    exact ⟨hheld, Except.ok.inj hr⟩
  | failed =>
    cases hx
    rintro ⟨⟩
  | _ => cases hx

/-- The proposals were counted in a state the push saw, where its own was new. -/
structure Counted (pid : Nat) (a : ProposalAdmission) (n : Nat) (x : World × Trail) : Prop where
  new : New pid a x.1
  count : (x.1.viable (judgedOf a)).length = n
  seen : (judgedOf a, x.1) ∈ x.2 pid

theorem Counted.overCount {a : ProposalAdmission} {n : Nat} {x : World × Trail}
    (h : Counted pid a n x) (hlimit : a.maxViableProposals ≤ n) :
    OverCount a.maxViableProposals (x.2 pid) :=
  ⟨judgedOf a, x.1, h.seen, h.new.new, by rw [h.count]; exact Nat.lt_succ_of_le hlimit⟩

theorem spec_viableCount {a : ProposalAdmission} {x : World × Trail} (hnew : New pid a x.1) :
    Spec .postgres pid (Handler.call (.viableCount a))
      (fun r y => ∀ n, r = .ok n → Counted pid a n y) x := by
  refine spec_call fun y _ hshrunk _ => ⟨trivial, fun ch r w hg hx => ?_⟩
  have hnew' := hnew.shrunk (hshrunk hnew.lock)
  cases ch with
  | done =>
    cases hx
    rintro n ⟨⟩
    refine ⟨hnew', ?_, ?_⟩
    · rw [filter_columnViable hg]
    · show _ ∈ Function.update y.2 pid _ pid
      rw [Function.update_self]
      exact List.mem_cons_self
  | failed =>
    cases hx
    rintro n ⟨⟩
  | _ => cases hx

/-- The bytes were summed in a state the push saw. -/
structure Summed (backend : Backend) (pid : Nat) (a : ProposalAdmission) (used : Nat)
    (x : World × Trail) : Prop where
  new : New pid a x.1
  count : (x.1.viable (judgedOf a)).length < a.maxViableProposals
  sum : x.1.usedBytes backend (judgedOf a) = used
  small : used < 2^63
  seen : (judgedOf a, x.1) ∈ x.2 pid

theorem spec_viableBytes {a : ProposalAdmission} {x : World × Trail} (hnew : New pid a x.1)
    (hcount : (x.1.viable (judgedOf a)).length < a.maxViableProposals) :
    Spec .postgres pid (Handler.call (.viableBytes a))
      (fun r y => ∀ used, r = .ok used → Summed .postgres pid a used y) x := by
  refine spec_call fun y _ hshrunk _ => ⟨trivial, fun ch r w hg hx => ?_⟩
  have hw := hshrunk hnew.lock
  cases ch with
  | done =>
    have hsum : sumOfBytes y.1 (judgedOf a) = y.1.usedBytes .postgres (judgedOf a) := by
      rw [sumOfBytes, filter_columnViable hg]
      rfl
    rw [exec] at hx
    split at hx
    · rename_i hsmall
      cases hx
      rintro used ⟨⟩
      refine ⟨hnew.shrunk hw, (hw.length_le _).trans_lt hcount, hsum.symm, hsmall, ?_⟩
      show _ ∈ Function.update y.2 pid _ pid
      rw [Function.update_self]
      exact List.mem_cons_self
    · cases hx
      rintro used ⟨⟩
  | failed =>
    cases hx
    rintro used ⟨⟩
  | _ => cases hx

theorem saturatingAdd_eq {a b : Nat} (h : a + b < 2^64) : saturatingAdd a b = a + b := by
  rw [saturatingAdd]
  omega

theorem spec_admitPostgres {a : ProposalAdmission} (ha : Pushed a) (x : World × Trail) :
    Spec .postgres pid (admitPostgres a) (fun write y => WriteOk .postgres (y.2 pid) write) x := by
  have hbytes := ha.requestBytes
  rw [admitPostgres, if_neg (by omega)]
  refine .seq' spec_lock fun r y hlock => .seq' (spec_orFail fun e _ => admitFailed_ok e y) ?_
  rintro ⟨⟩ y' ⟨rfl, rfl⟩
  refine .seq' (spec_proposalExists (hlock rfl)) fun r y hnew =>
    .seq' (spec_orFail fun e _ => admitFailed_ok e y) ?_
  rintro found y' ⟨rfl, rfl⟩
  cases found with
  | true =>
    exact spec_released rfl (fun _ _ => nofun) fun write _ hwrite _ => by cases hwrite; trivial
  | false =>
    refine .seq' (spec_viableCount (hnew rfl)) fun r y hcounted =>
      .seq' (spec_orFail fun e _ => admitFailed_ok e y) ?_
    rintro n y' ⟨rfl, rfl⟩
    have hn := hcounted n rfl
    split
    · rename_i hlimit
      refine spec_released rfl (fun _ _ => nofun) fun write z hwrite hseen => ?_
      cases hwrite
      rw [hseen]
      exact hn.overCount hlimit
    · rename_i hlimit
      have hcount : (y'.1.viable (judgedOf a)).length < a.maxViableProposals := by
        rw [hn.count]
        omega
      refine .seq' (spec_viableBytes hn.new hcount) fun r y hsummed =>
        .seq' (spec_orFail fun e _ => admitFailed_ok e y) ?_
      rintro used z ⟨rfl, rfl⟩
      have hused := hsummed used rfl
      have hsmall := hused.small
      rw [saturatingAdd_eq (by omega)]
      split
      · rename_i hover
        refine spec_released rfl (fun _ _ => nofun) fun write y hwrite hseen => ?_
        cases hwrite
        rw [hseen]
        refine ⟨judgedOf a, z.1, a.requestBytes, hused.seen, rfl, hused.new.new, ?_⟩
        rw [hused.sum]
        exact hover
      · rename_i hover
        refine spec_storeProposal admitFailed_ok (fun _ => trivial) hused.new.lock fun w hw => ?_
        have hle := hw.usedBytes_le .postgres (judgedOf a)
        rw [hused.sum] at hle
        exact ⟨hw.has hused.new.new, (hw.length_le _).trans_lt hused.count, by omega, nofun,
          ha.pending, ha.id⟩

/-! ## The filesystem -/

theorem mapM_key {records : List ProposalRecord}
    (h : ∀ r ∈ records, ∃ word, r.commitment = Multisig.commitmentHex word) :
    (records.map Backend.filesystem.shown).mapM (fun record => key record.commitment) =
      .ok (records.map fun r => fileName r.commitment) := by
  induction records with
  | nil => rfl
  | cons r rest ih =>
    obtain ⟨word, hword⟩ := h r List.mem_cons_self
    have hr : key (Backend.filesystem.shown r).commitment = .ok (fileName r.commitment) := by
      show key (fileName r.commitment) = _
      rw [hword]
      exact key_fileName word
    rw [List.map_cons, List.mapM_cons, hr, ih fun r hr => h r (List.mem_cons_of_mem _ hr)]
    rfl

/-- Viability does not depend on how a proposal is named. -/
theorem filter_shown (j : Judged) (records : List ProposalRecord) :
    (records.map Backend.filesystem.shown).filter j.viable =
      (records.filter j.viable).map Backend.filesystem.shown := by
  rw [List.filter_map]
  rfl

theorem foldl_saturatingAdd (sizes : List Nat) {start : Nat} (hstart : start ≤ 2^64 - 1) :
    sizes.foldl saturatingAdd start = min (start + sizes.sum) (2^64 - 1) := by
  induction sizes generalizing start with
  | nil =>
    rw [List.foldl_nil, List.sum_nil]
    omega
  | cons n rest ih =>
    have hnext : saturatingAdd start n ≤ 2^64 - 1 := Nat.min_le_right _ _
    rw [List.foldl_cons, ih hnext, List.sum_cons, saturatingAdd]
    omega

/-- The records were read from `w₁`, in a state the push saw under its lock. -/
structure Listed (pid : Nat) (a : ProposalAdmission) (w₁ : World) (x : World × Trail) : Prop where
  valid : Valid w₁
  lock : w₁.lock = some pid
  shrunk : Shrunk w₁ x.1
  seen : (judgedOf a, w₁) ∈ x.2 pid

theorem spec_loadProposalRecords {a : ProposalAdmission} {x : World × Trail}
    (hlock : x.1.lock = some pid) :
    Spec .filesystem pid (Handler.call (.loadProposalRecords a))
      (fun r y => ∀ records, r = .ok records →
        ∃ w₁, records = w₁.proposals.map Backend.filesystem.shown ∧ Listed pid a w₁ y) x := by
  refine spec_call fun y _ hshrunk hvalid => ⟨trivial, fun ch r w _ hx => ?_⟩
  have hheld := (hshrunk hlock).lock.trans hlock
  cases ch with
  | done =>
    cases hx
    rintro records ⟨⟩
    refine ⟨y.1, rfl, hvalid, hheld, Shrunk.refl _, ?_⟩
    show _ ∈ Function.update y.2 pid _ pid
    rw [Function.update_self]
    exact List.mem_cons_self
  | failed =>
    cases hx
    rintro records ⟨⟩
  | _ => cases hx

theorem spec_readRequestSizes {a : ProposalAdmission} {w₁ : World} {x : World × Trail}
    (h : Listed pid a w₁ x) :
    Spec .filesystem pid (Handler.call .readRequestSizes)
      (fun r y => ∀ sizes, r = .ok sizes → sizes = w₁.sizes ∧ Listed pid a w₁ y) x := by
  refine spec_call fun y htrail hshrunk _ => ⟨trivial, fun ch r w _ hx => ?_⟩
  have hw := h.shrunk.trans (hshrunk (h.shrunk.lock.trans h.lock))
  cases ch with
  | done =>
    cases hx
    rintro sizes ⟨⟩
    exact ⟨hw.sizes, h.valid, h.lock, hw, htrail ▸ h.seen⟩
  | failed =>
    cases hx
    rintro sizes ⟨⟩
  | _ => cases hx

/-- The sizes an admission writes: those of the proposals that are there, and its
own. -/
def keptSizes (w₁ : World) (a : ProposalAdmission) : String → Option Nat :=
  Function.update
    (fun commitment =>
      if (w₁.proposals.map fun r => fileName r.commitment).contains commitment then
        w₁.sizes commitment
      else none)
    (fileName a.commitment) (some a.requestBytes)

/-- The sizes are written, and nothing was added since the records were read. -/
structure SizesWritten (pid : Nat) (a : ProposalAdmission) (w₁ w : World) : Prop where
  lock : w.lock = some pid
  facts : (w.proposals.map factsOf).Sublist (w₁.proposals.map factsOf)
  sizes : w.sizes = keptSizes w₁ a

theorem spec_writeRequestSizes {a : ProposalAdmission} {w₁ : World} {x : World × Trail}
    (h : Listed pid a w₁ x) :
    Spec .filesystem pid (Handler.call (.writeRequestSizes (keptSizes w₁ a)))
      (fun r y => r = .ok () → SizesWritten pid a w₁ y.1) x := by
  refine spec_call fun y _ hshrunk _ => ?_
  have hw := h.shrunk.trans (hshrunk (h.shrunk.lock.trans h.lock))
  refine ⟨hw.lock.trans h.lock, fun ch r w _ hx => ?_⟩
  cases ch with
  | done =>
    cases hx
    exact fun _ => ⟨hw.lock.trans h.lock, hw.facts, rfl⟩
  | lost | failed =>
    cases hx
    rintro ⟨⟩
  | _ => cases hx

/-- With the sizes written, the proposal may be stored. -/
theorem SizesWritten.admissible {a : ProposalAdmission} {w₁ w : World}
    (h : SizesWritten pid a w₁ w) (ha : Pushed a)
    (hlive : fileName a.commitment ∉ w₁.proposals.map fun r => fileName r.commitment)
    (hcount : (w₁.viable (judgedOf a)).length < a.maxViableProposals)
    (hbytes : w₁.usedBytes .filesystem (judgedOf a) + a.requestBytes ≤
      a.maxAccountRequestBytes) : Admissible .filesystem a w := by
  have hviable : ((w.viable (judgedOf a)).map factsOf).Sublist
      ((w₁.viable (judgedOf a)).map factsOf) := by
    rw [viable_facts, viable_facts]
    exact h.facts.filter _
  have hlength := hviable.length_le
  rw [List.length_map, List.length_map] at hlength
  -- the sizes of what is there are the old ones
  have hold : ∀ f ∈ (w.viable (judgedOf a)).map factsOf,
      bytesOf w .filesystem f = bytesOf w₁ .filesystem f := by
    intro f hf
    obtain ⟨r, hr, rfl⟩ := List.mem_map.mp (hviable.subset hf)
    have hname : fileName r.commitment ∈ w₁.proposals.map fun r => fileName r.commitment :=
      List.mem_map_of_mem (List.mem_of_mem_filter hr)
    show (w.sizes (fileName r.commitment)).getD 0 = (w₁.sizes (fileName r.commitment)).getD 0
    rw [h.sizes, keptSizes, Function.update_of_ne]
    · rw [if_pos (List.contains_iff_mem.mpr hname)]
    · intro heq
      exact hlive (heq ▸ hname)
  have hused : w.usedBytes .filesystem (judgedOf a) ≤ w₁.usedBytes .filesystem (judgedOf a) := by
    rw [usedBytes_eq, usedBytes_eq, List.map_congr_left hold]
    exact (hviable.map _).sum_le_sum fun _ _ => Nat.zero_le _
  refine ⟨?_, hlength.trans_lt hcount, by omega, fun _ => ?_, ha.pending, ha.id⟩
  · rw [← Bool.not_eq_true]
    intro hhas
    obtain ⟨f, hf, heq⟩ := List.mem_map.mp ((has_iff w a.commitment).mp hhas)
    obtain ⟨r, hr, rfl⟩ := List.mem_map.mp (h.facts.subset hf)
    exact hlive (List.mem_map.mpr ⟨r, hr, congrArg fileName heq⟩)
  · rw [h.sizes, keptSizes, Function.update_self]

theorem SizesWritten.shrunk {a : ProposalAdmission} {w₁ w w' : World}
    (h : SizesWritten pid a w₁ w) (hw : Shrunk w w') : SizesWritten pid a w₁ w' :=
  ⟨hw.lock.trans h.lock, hw.facts.trans h.facts, hw.sizes.trans h.sizes⟩

theorem not_has_of_not_live {w : World} {commitment : Commitment}
    (hlive : fileName commitment ∉ w.proposals.map fun r => fileName r.commitment) :
    w.has commitment = false := by
  rw [World.has, List.any_eq_false]
  intro r hr heq
  exact hlive (List.mem_map.mpr ⟨r, hr, congrArg fileName (beq_iff_eq.mp heq)⟩)

theorem spec_admitFilesystem {a : ProposalAdmission} (ha : Pushed a) (x : World × Trail) :
    Spec .filesystem pid (admitFilesystem a)
      (fun write y => WriteOk .filesystem (y.2 pid) write) x := by
  have hbytes := ha.requestBytes
  have hmax := ha.maxAccountRequestBytes
  obtain ⟨word, hword⟩ := ha.id
  refine .seq' spec_lock fun r y hlock => .seq' (spec_orFail fun e _ => storageError_ok e y) ?_
  rintro ⟨⟩ y' ⟨rfl, rfl⟩
  have hkey : key a.commitment = .ok (fileName a.commitment) := by
    rw [hword]
    exact key_commitmentHex word
  rw [hkey]
  refine .seq' (spec_loadProposalRecords (hlock rfl)) fun r y hload =>
    .seq' (spec_orFail fun e _ => storageError_ok e y) ?_
  rintro records y' ⟨rfl, rfl⟩
  obtain ⟨w₁, rfl, hlisted⟩ := hload records rfl
  have hids : ∀ r ∈ w₁.proposals, ∃ word, r.commitment = Multisig.commitmentHex word :=
    fun r hr => (hlisted.valid r hr).2
  rw [mapM_key hids]
  dsimp only
  split
  · exact spec_released rfl (fun _ _ => nofun) fun write _ hwrite _ => by cases hwrite; trivial
  · rename_i hlive
    rw [List.contains_iff_mem] at hlive
    have hnew := not_has_of_not_live hlive
    rw [filter_shown, mapM_key fun r hr => hids r (List.mem_of_mem_filter hr)]
    dsimp only
    rw [List.length_map]
    split
    · rename_i hlimit
      refine spec_released rfl (fun _ _ => nofun) fun write z hwrite hseen => ?_
      cases hwrite
      rw [hseen]
      exact ⟨judgedOf a, w₁, hlisted.seen, hnew, Nat.lt_succ_of_le hlimit⟩
    · rename_i hlimit
      refine .seq' (spec_readRequestSizes hlisted) fun r y hsizes =>
        .seq' (spec_orFail fun e _ => storageError_ok e y) ?_
      rintro sizes z ⟨rfl, rfl⟩
      obtain ⟨rfl, hlisted⟩ := hsizes sizes rfl
      have hused : (((w₁.proposals.filter (judgedOf a).viable).map fun r =>
          fileName r.commitment).map fun commitment => (w₁.sizes commitment).getD 0).sum =
            w₁.usedBytes .filesystem (judgedOf a) := by
        rw [List.map_map]
        rfl
      rw [foldl_saturatingAdd _ (Nat.zero_le _), hused, Nat.zero_add]
      split
      · rename_i hover
        refine spec_released rfl (fun _ _ => nofun) fun write y hwrite hseen => ?_
        cases hwrite
        rw [hseen]
        refine ⟨judgedOf a, w₁, a.requestBytes, hlisted.seen, rfl, hnew, ?_⟩
        rw [saturatingAdd] at hover
        omega
      · rename_i hover
        refine .seq' (spec_writeRequestSizes hlisted) fun r y hwritten =>
          .seq' (spec_orFail fun e _ => storageError_ok e y) ?_
        rintro ⟨⟩ y' ⟨rfl, rfl⟩
        have hw := hwritten rfl
        refine spec_storeProposal storageError_ok (fun _ => trivial) hw.lock fun w hshrunk => ?_
        refine (hw.shrunk hshrunk).admissible ha hlive (Nat.lt_of_not_le hlimit) ?_
        rw [saturatingAdd] at hover
        omega

/-! ## The push -/

theorem spec_admitDeltaProposal {a : ProposalAdmission} (ha : Pushed a) (x : World × Trail) :
    Spec backend pid (admitDeltaProposal backend a)
      (fun write y => WriteOk backend (y.2 pid) write) x := by
  cases backend with
  | postgres => exact spec_admitPostgres ha x
  | filesystem => exact spec_admitFilesystem ha x

theorem storedRequestBytes_lt {server : Server} {payload : Payload} {bytes : Nat}
    (h : storedRequestBytes server payload = .ok bytes) : bytes < 2^32 := by
  rw [storedRequestBytes] at h
  split at h
  · cases h
    omega
  · split at h
    · cases h
    · split at h
      · cases h
      · rename_i hle
        cases h
        have := server.maxProposalRequestBytes.toNat_lt
        omega

theorem storedRequestBytes_error {server : Server} {payload : Payload} {e : PushError}
    (h : storedRequestBytes server payload = .error e) (x : World × Trail) :
    ErrorOk backend pid e x := by
  rw [storedRequestBytes] at h
  split at h
  · cases h
  · split at h
    · cases h
      trivial
    · split at h
      · cases h
        trivial
      · cases h

theorem pushed_admissionOf {server : Server} (nonce : Nonce) (chain : Chain) (payload : Payload)
    (approved : Approved) {requestBytes : Nat} {commitment : Commitment} {summary : String}
    (hid : deltaProposalId server summary = .ok commitment) (hbytes : requestBytes < 2^32) :
    Pushed (admissionOf server nonce chain payload requestBytes commitment approved) where
  pending := rfl
  id := by
    rw [deltaProposalId] at hid
    cases hword : server.summaryCommitment summary with
    | error e => rw [hword] at hid; cases hid
    | ok word =>
      rw [hword] at hid
      cases hid
      exact ⟨word, rfl⟩
  requestBytes := hbytes
  maxAccountRequestBytes := server.maxAccountRequestBytes.toNat_lt

theorem spec_alreadyStored (server : Server) (commitment : Commitment) (pushed : DeltaObject)
    (x : World × Trail) :
    Spec backend pid (alreadyStored server commitment pushed) (fun _ _ => True) x := by
  refine .seq' (spec_any fun _ => trivial) fun r y _ =>
    .seq' (spec_orFail fun e _ => storageError_ok e y) fun stored z _ => ?_
  split
  · exact .pure' trivial
  · exact .throw' trivial

theorem spec_verifyAndAdmit (server : Server) (nonce : Nonce) (chain : Chain) (payload : Payload)
    {requestBytes : Nat} (hbytes : requestBytes < 2^32) (x : World × Trail) :
    Spec backend pid (verifyAndAdmit backend server nonce chain payload requestBytes)
      (fun _ _ => True) x := by
  refine .seq' (spec_any fun _ => trivial) fun r y _ =>
    .seq' (spec_orFail fun _ _ => trivial) fun _ z _ => ?_
  cases server.txSummary payload with
  | none => exact .throw' trivial
  | some summary =>
    refine .seq' (spec_any fun _ => trivial) fun r y _ =>
      .seq' (spec_orFail fun _ _ => trivial) fun _ z _ => ?_
    refine .seq' (spec_orFail fun _ _ => trivial) ?_
    rintro commitment z' ⟨hid, rfl⟩
    refine .seq' (spec_any fun _ => trivial) fun r y _ =>
      .seq' (spec_orFail fun _ _ => trivial) fun approved z _ => ?_
    have ha := pushed_admissionOf nonce chain payload approved hid hbytes
    refine .seq' (spec_admitDeltaProposal ha z) fun write y hwrite => ?_
    cases write with
    | stored => exact .pure' trivial
    | alreadyStored =>
      exact .seq' (spec_alreadyStored server commitment _ y) fun _ _ _ => .pure' trivial
    | pendingLimit limit => exact .throw' hwrite
    | accountRequestBytesLimit limit used => exact .throw' hwrite

theorem shown_proposal (backend : Backend) (r : ProposalRecord) :
    (backend.shown r).proposal = r.proposal := by
  cases backend with
  | postgres => rfl
  | filesystem => rfl

/-- The pending proposals a push counts are the viable ones. -/
theorem length_counted (w : World) (server : Server) (chain : Chain)
    (proposalId : Option (Except String Commitment)) :
    ((w.pendingProposals.map backend.shown).filter fun record =>
      record.proposal.prevCommitment == chain.tailCommitment &&
        pastTail chain.tailNonce record.proposal.nonce).length =
      (w.viable (judgedPush server chain proposalId)).length := by
  rw [List.filter_map, List.length_map, World.pendingProposals, List.filter_filter, World.viable]
  refine congrArg List.length (List.filter_congr fun r _ => ?_)
  rw [Function.comp_apply, shown_proposal, Bool.and_comm]
  rfl

/-- A pending proposal is recognised on Postgres. -/
theorem alreadyPending_of_stored {w : World} {server : Server} {chain : Chain}
    {proposalId : Option (Except String Commitment)} (hw : Valid w)
    (h : (judgedPush server chain proposalId).stored w = true) :
    alreadyPending proposalId (w.pendingProposals.map Backend.postgres.shown) = true := by
  match proposalId with
  | none => cases h
  | some (.error e) => cases h
  | some (.ok id) =>
    obtain ⟨r, hr, heq⟩ := List.any_eq_true.mp h
    refine List.any_eq_true.mpr ⟨r, ?_, heq⟩
    refine List.mem_map.mpr ⟨r, ?_, rfl⟩
    exact List.mem_filter.mpr ⟨hr, (hw r hr).1⟩

/-- The first count, outside the lock. A refusal there is rightful: on Postgres the
proposal would have been recognised, on the filesystem the run has no such push. -/
theorem spec_pullPendingProposals {server : Server} {chain : Chain}
    {proposalId : Option (Except String Commitment)} {x : World × Trail} :
    Spec backend pid (Handler.call (.pullPendingProposals (judgedPush server chain proposalId)))
      (fun r y => ∀ pending, r = .ok pending → alreadyPending proposalId pending = false →
        server.maxPendingProposals ≤ (pending.filter fun record =>
          record.proposal.prevCommitment == chain.tailCommitment &&
            pastTail chain.tailNonce record.proposal.nonce).length →
        OverCount server.maxPendingProposals (y.2 pid)) x := by
  refine spec_call fun y _ _ hvalid => ⟨trivial, fun ch r w hg hx => ?_⟩
  cases ch with
  | done =>
    cases hx
    rintro pending ⟨⟩ hpending hlimit
    rw [length_counted _ server chain proposalId] at hlimit
    refine ⟨judgedPush server chain proposalId, y.1, ?_, ?_, Nat.lt_succ_of_le hlimit⟩
    · show _ ∈ Function.update y.2 pid _ pid
      rw [Function.update_self]
      exact List.mem_cons_self
    · rw [← Bool.not_eq_true]
      intro hstored
      cases backend with
      | postgres =>
        rw [alreadyPending_of_stored hvalid hstored] at hpending
        cases hpending
      | filesystem =>
        have hguard : (!((judgedPush server chain proposalId).stored y.1 &&
            decide (server.maxPendingProposals ≤
              (y.1.viable (judgedPush server chain proposalId)).length))) = true := hg
        rw [hstored, decide_eq_true hlimit] at hguard
        cases hguard
  | failed =>
    cases hx
    rintro pending ⟨⟩
  | _ => cases hx

theorem spec_pushDeltaProposal (server : Server) (nonce : Nonce) (x : World × Trail) :
    Spec backend pid (pushDeltaProposal backend server nonce) (fun _ _ => True) x := by
  refine .seq' (spec_any fun _ => trivial) fun r y _ =>
    .seq' (spec_orFail fun _ _ => trivial) fun payload z _ => ?_
  refine .seq' (spec_any fun _ => trivial) fun r y _ =>
    .seq' (spec_orFail fun _ _ => trivial) fun chain z _ => ?_
  split
  · exact .throw' trivial
  · split
    · exact .throw' trivial
    · refine .seq' spec_pullPendingProposals fun r y hpull =>
        .seq' (spec_orFail fun e _ => storageError_ok _ y) ?_
      rintro pending y' ⟨rfl, rfl⟩
      split
      · rename_i hrefused
        obtain ⟨hnew, hlimit⟩ := Bool.and_eq_true_iff.mp hrefused
        rw [Bool.not_eq_true'] at hnew
        exact .throw' (hpull pending rfl hnew (of_decide_eq_true hlimit))
      · refine .seq' (spec_orFail fun e he => storedRequestBytes_error he y') ?_
        rintro requestBytes z ⟨hbytes, rfl⟩
        exact spec_verifyAndAdmit server nonce chain payload (storedRequestBytes_lt hbytes) z

end Push

/-! ## Every run -/

theorem callOk_trail {backend : Backend} {pid : Nat} {e : PushError} {x y : World × Trail}
    (hseen : y.2 pid = x.2 pid) (h : ErrorOk backend pid e x) : ErrorOk backend pid e y := by
  cases e with
  | pendingProposalsLimit limit =>
    show OverCount limit (y.2 pid)
    rw [hseen]
    exact h
  | accountRequestCapacityExceeded limit used =>
    show OverBytes backend limit (y.2 pid)
    rw [hseen]
    exact h
  | _ => trivial

theorem wp_handle (backend : Backend) (servers : Nat → Server) (pid : Nat) (req : Request)
    (x : World × Trail) :
    (limits backend).wp ((machine backend).recorded noteJudged) (fits backend).recorded pid
      (handle backend servers req) (fun _ _ => True) x := by
  obtain ⟨replica, nonce⟩ := req
  refine Rely.wp_bind (Rely.wp_mono (spec_pushDeltaProposal (servers replica) nonce x) ?_)
  intro answer y hanswer z hrely _
  refine ⟨?_, fun _ _ _ _ _ _ => trivial⟩
  cases answer with
  | ok result => trivial
  | error e => exact callOk_trail hrely.1 hanswer

section Runs
variable {backend : Backend} {servers : Nat → Server} {w₀ : World} {c : Conf Op Res World Request}
  {trail : Trail}

end Runs

end Guardian.Capacity
