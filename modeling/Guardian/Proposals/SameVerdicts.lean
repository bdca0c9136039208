import Guardian.Lib.Solo
import Guardian.Proposals.WithinLimits

/- The limits in every run, and the verdicts of the two backends on a sequence of
   operations.

   In a sequence each operation runs alone. Both admissions come to what `judge` says of the
   stored proposals and their recorded bytes, on Postgres if the nonces are
   comparable and the bytes add up to a `BIGINT`; so starting alike, the backends
   answer alike and stay alike. The last section has the pushes that show why the
   conditions are there. -/
namespace Guardian.Capacity

open Interleaving

/-! ## One operation alone -/

/-- The answers of the parts of a push that are one call. -/
structure Answers where
  payload : Except String Payload
  chain : Except String Chain
  reconstructed : Except String Unit
  verified : Except String Unit
  approved : Except String Approved

/-- No call fails. -/
def Answers.choice (answers : Answers) : Op → Choice
  | .resolveAccount => .resolved answers.payload
  | .loadChain => .chain answers.chain
  | .reconstructTail => .reconstructed answers.reconstructed
  | .verifyDelta => .verified answers.verified
  | .creationSignatures => .approved answers.approved
  | _ => .done

def execAlone (backend : Backend) (answers : Answers) (o : Op) (w : World) :
    Option (Res o × World) := exec backend 0 o (answers.choice o) w

/-- A push with its answers, a signature, or a deletion. -/
inductive Operation where
  | push (server : Server) (nonce : Nonce) (answers : Answers)
  | sign (commitment : Commitment) (read : DeltaObject) (deltaPayload : Payload)
      (sig : CosignerSignature)
  | delete (commitment : Commitment)

inductive Verdict where
  | pushed (answer : Except PushError (DeltaObject × Commitment))
  | signed (written : Bool)
  | deleted

def perform (backend : Backend) : Operation → World → Option (Verdict × World)
  | .push server nonce answers, w =>
    ((pushDeltaProposal backend server nonce).run.solo (execAlone backend answers) w).map
      fun x => (.pushed x.1, x.2)
  | .sign commitment read deltaPayload sig, w =>
    match act (.sign commitment read deltaPayload sig) w with
    | none => some (.signed false, w)
    | some w' => some (.signed (w.proposals.any (unchangedSince commitment read)), w')
  | .delete commitment, w => (act (.delete commitment) w).map fun w' => (.deleted, w')

/-- The verdict on an admission, of the stored proposals and their bytes. -/
def judge (backend : Backend) (a : ProposalAdmission) (w : World) : ProposalWrite :=
  if w.has a.commitment then .alreadyStored
  else if a.maxViableProposals ≤ (w.viable (judgedOf a)).length then
    .pendingLimit a.maxViableProposals
  else if a.maxAccountRequestBytes < w.usedBytes backend (judgedOf a) + a.requestBytes then
    .accountRequestBytesLimit a.maxAccountRequestBytes (w.usedBytes backend (judgedOf a))
  else .stored

/-- What storing leaves; the filesystem writes the sizes first. -/
def World.admitted (w : World) (backend : Backend) (a : ProposalAdmission) : World :=
  match backend with
  | .postgres => w.stored .postgres a
  | .filesystem => { w with sizes := keptSizes w a }.stored .filesystem a

/-- What an admission leaves. -/
def World.judged (w : World) (backend : Backend) (a : ProposalAdmission) : World :=
  match judge backend a w with
  | .stored => w.admitted backend a
  | _ => w

section Solo
variable {backend : Backend} {answers : Answers} {w w' : World} {a : ProposalAdmission} {α β : Type}

theorem solo_call {o : Op} {f : Res o → Handler β} {r : Res o}
    (h : execAlone backend answers o w = some (r, w')) :
    (Handler.call o >>= f).run.solo (execAlone backend answers) w =
      (f r).run.solo (execAlone backend answers) w' := Solo.bind_ok (Solo.call_ok h)

/-- The account with its lock held. -/
def World.held (w : World) : World := { w with lock := some 0 }

/-- The file of a proposal is there exactly if the proposal is. -/
theorem contains_fileName (hw : Valid w) (ha : Pushed a) :
    (w.proposals.map fun r => fileName r.commitment).contains (fileName a.commitment) =
      w.has a.commitment := by
  obtain ⟨u, hu⟩ := ha.id
  rw [Bool.eq_iff_iff, List.contains_iff_mem, World.has, List.any_eq_true, List.mem_map]
  constructor
  · rintro ⟨r, hr, hname⟩
    obtain ⟨v, hv⟩ := (hw r hr).2
    rw [hu, hv] at hname
    refine ⟨r, hr, ?_⟩
    rw [beq_iff_eq, hv, hu, fileName_inj hname]
  · rintro ⟨r, hr, heq⟩
    exact ⟨r, hr, congrArg fileName (beq_iff_eq.mp heq)⟩

end Solo

/-! ## Alike -/

/-- The two backends hold the same proposals, with the same bytes recorded. -/
structure Alike (p f : World) : Prop where
  proposals : f.proposals = p.proposals
  bytes : ∀ r ∈ p.proposals, f.recordedBytes .filesystem r = p.recordedBytes .postgres r
  valid : Valid p
  free : p.lock = none ∧ f.lock = none

namespace Alike
variable {p f : World} {a : ProposalAdmission}

theorem viable (h : Alike p f) (j : Judged) : f.viable j = p.viable j := by
  rw [World.viable, World.viable, h.proposals]

theorem has (h : Alike p f) (commitment : Commitment) : f.has commitment = p.has commitment := by
  rw [World.has, World.has, h.proposals]

theorem usedBytes (h : Alike p f) (j : Judged) :
    f.usedBytes .filesystem j = p.usedBytes .postgres j := by
  rw [World.usedBytes, World.usedBytes, h.viable]
  exact congrArg List.sum (List.map_congr_left fun r hr => h.bytes r (List.mem_of_mem_filter hr))

theorem judge (h : Alike p f) (a : ProposalAdmission) :
    judge .filesystem a f = judge .postgres a p := by
  rw [Capacity.judge, Capacity.judge, h.has, h.viable, h.usedBytes]

theorem valid' (h : Alike p f) : Valid f := by
  rw [Valid, h.proposals]
  exact h.valid

/-- Both store the proposal, and its bytes. -/
theorem admitted (h : Alike p f) (ha : Pushed a) (hnew : p.has a.commitment = false) :
    Alike (p.admitted .postgres a) (f.admitted .filesystem a) := by
  have hnew' : f.has a.commitment = false := (h.has a.commitment).trans hnew
  have hsizes : ({ f with sizes := keptSizes f a } : World).has a.commitment = false := hnew'
  have hp : (p.admitted .postgres a).proposals = p.proposals ++ [⟨a.commitment, a.proposal⟩] :=
    stored_proposals hnew
  have hf : (f.admitted .filesystem a).proposals = f.proposals ++ [⟨a.commitment, a.proposal⟩] :=
    stored_proposals hsizes
  have hlive : fileName a.commitment ∉ f.proposals.map fun r => fileName r.commitment := by
    rw [← List.contains_iff_mem, contains_fileName h.valid' ha, hnew']
    exact Bool.false_ne_true
  refine ⟨by rw [hf, hp, h.proposals], fun r hr => ?_, fun r hr => ?_, h.free⟩
  · rw [hp] at hr
    show ((keptSizes f a) (fileName r.commitment)).getD 0 =
      Function.update p.requestBytes a.commitment a.requestBytes r.commitment
    obtain hr | hr := List.mem_append.mp hr
    · have hname : fileName r.commitment ∈ f.proposals.map fun r => fileName r.commitment := by
        rw [h.proposals]
        exact List.mem_map_of_mem hr
      have hne : fileName r.commitment ≠ fileName a.commitment := fun heq => hlive (heq ▸ hname)
      rw [keptSizes, Function.update_of_ne hne, if_pos (List.contains_iff_mem.mpr hname),
        Function.update_of_ne (ne_of_not_has hnew hr)]
      exact h.bytes r hr
    · rw [List.mem_singleton.mp hr, keptSizes, Function.update_self, Function.update_self]
      rfl
  · rw [hp] at hr
    obtain hr | hr := List.mem_append.mp hr
    · exact h.valid r hr
    · rw [List.mem_singleton.mp hr]
      exact ⟨ha.pending, ha.id⟩

theorem judged (h : Alike p f) (ha : Pushed a) :
    Alike (p.judged .postgres a) (f.judged .filesystem a) := by
  rw [World.judged, World.judged, h.judge]
  cases hjudge : Capacity.judge .postgres a p with
  | stored =>
    refine h.admitted ha ?_
    rw [Capacity.judge] at hjudge
    split at hjudge
    · cases hjudge
    · rename_i hnew
      exact Bool.eq_false_iff.mpr hnew
  | alreadyStored | pendingLimit | accountRequestBytesLimit => exact h

end Alike

/-! ## The two pushes -/

section Pushes
variable {answers : Answers} {p f : World} {α : Type}

/-- Run alone, the procedures answer the same and leave the account alike. -/
def SameEnd (answers : Answers) (x y : Handler α) (p f : World) : Prop :=
  ∃ r p' f', x.run.solo (execAlone .postgres answers) p = some (r, p') ∧
    y.run.solo (execAlone .filesystem answers) f = some (r, f') ∧ Alike p' f'

theorem SameEnd.throw' (h : Alike p f) (e : PushError) :
    SameEnd answers (throw e : Handler α) (throw e) p f := ⟨.error e, p, f, rfl, rfl, h⟩

theorem SameEnd.pure' (h : Alike p f) (x : α) :
    SameEnd answers (pure x : Handler α) (pure x) p f := ⟨.ok x, p, f, rfl, rfl, h⟩

/-- A call that both answer, whatever each answers. -/
theorem SameEnd.call' {o : Op} {g g' : Res o → Handler α} {r r' : Res o}
    (hp : execAlone .postgres answers o p = some (r, p))
    (hf : execAlone .filesystem answers o f = some (r', f))
    (h : SameEnd answers (g r) (g' r') p f) :
    SameEnd answers (Handler.call o >>= g) (Handler.call o >>= g') p f := by
  obtain ⟨x, p', f', hx, hy, halike⟩ := h
  exact ⟨x, p', f', (solo_call hp).trans hx, (solo_call hf).trans hy, halike⟩

theorem SameEnd.orFail' {ε β : Type} (h : Alike p f) {x : Except ε β} {wrap : ε → PushError}
    {g g' : β → Handler α} (hg : ∀ b, x = .ok b → SameEnd answers (g b) (g' b) p f) :
    SameEnd answers (Handler.orFail x wrap >>= g) (Handler.orFail x wrap >>= g') p f := by
  cases x with
  | error e => exact ⟨.error (wrap e), p, f, rfl, rfl, h⟩
  | ok b => exact hg b rfl

theorem SameEnd.bind' {β : Type} {x y : Handler β} {g g' : β → Handler α}
    (h : SameEnd answers x y p f)
    (hg : ∀ b p' f', Alike p' f' → SameEnd answers (g b) (g' b) p' f') :
    SameEnd answers (x >>= g) (y >>= g') p f := by
  obtain ⟨r, p', f', hx, hy, halike⟩ := h
  cases r with
  | error e => exact ⟨.error e, p', f', Solo.bind_error hx, Solo.bind_error hy, halike⟩
  | ok b =>
    obtain ⟨r', p'', f'', hx', hy', halike'⟩ := hg b p' f' halike
    exact ⟨r', p'', f'', (Solo.bind_ok hx).trans hx', (Solo.bind_ok hy).trans hy', halike'⟩

end Pushes

/-! ## Sequences -/

theorem Alike.act {p f p' : World} (h : Alike p f) {a : Act} (hp : act a p = some p') :
    ∃ f', Capacity.act a f = some f' ∧ Alike p' f' := by
  cases a with
  | sign commitment read payload sig =>
    rw [Capacity.act] at hp ⊢
    cases hsigned : withApproval read payload sig with
    | none => rw [hsigned] at hp; cases hp
    | some signed =>
      rw [hsigned] at hp
      cases hp
      have hpending : signed.status.isPending = true := by
        rw [withApproval] at hsigned
        split at hsigned
        · cases hsigned
          rfl
        · cases hsigned
      refine ⟨_, rfl, ⟨congrArg (List.map _) h.proposals, fun r hr => ?_, fun r hr => ?_, h.free⟩⟩
      · obtain ⟨r', hr', rfl⟩ := List.mem_map.mp hr
        -- neither the column nor the file of sizes knows what a proposal says
        have hname : (if unchangedSince commitment read r' then { r' with proposal := signed }
            else r').commitment = r'.commitment := by
          split
          · rfl
          · rfl
        have hsame := h.bytes r' hr'
        show (f.sizes (fileName _)).getD 0 = p.requestBytes _
        rw [hname]
        exact hsame
      · obtain ⟨r', hr', rfl⟩ := List.mem_map.mp hr
        obtain ⟨hstatus, hid⟩ := h.valid r' hr'
        split
        · exact ⟨hpending, hid⟩
        · exact ⟨hstatus, hid⟩
  | delete commitment =>
    cases hp
    refine ⟨_, rfl, ⟨congrArg (List.filter _) h.proposals, fun r hr => ?_, fun r hr => ?_, h.free⟩⟩
    · exact h.bytes r (List.mem_of_mem_filter hr)
    · exact h.valid r (List.mem_of_mem_filter hr)

namespace AtTheLimit

/-- At most `limit` proposals and fifteen bytes; every request has ten bytes, and
the length of a payload tells its summary. -/
def server (limit : Nat) : Server where
  maxPendingCandidates := 4
  maxPendingProposals := limit
  maxProposalRequestBytes := 100
  maxAccountRequestBytes := 15
  txSummary := some
  transactionRequest := some
  storedLen := fun _ => .ok 10
  summaryCommitment := fun summary => .ok (Multisig.Word.ofIndex summary.length)

/-- No queue; the proposals build on the stored state. -/
def chain : Chain := ⟨0, none, "base"⟩

def empty : World := ⟨[], fun _ => 0, fun _ => none, none⟩

def answers (payload : Payload) : Answers where
  payload := .ok payload
  chain := .ok chain
  reconstructed := .ok ()
  verified := .ok ()
  approved := .ok ⟨0, "proposer", []⟩

/-- A push up to its admission. -/
def judging (pid : Nat) (nonce : Nonce) (payload : Payload) : List (Event Request Choice Act) :=
  [.spawn pid (.push 0 nonce), .run pid (.resolved (.ok payload)), .run pid (.chain (.ok chain)),
    .run pid .done]

def verifying (pid : Nat) : List (Event Request Choice Act) :=
  [.run pid (.reconstructed (.ok ())), .run pid (.verified (.ok ())),
    .run pid (.approved (.ok ⟨0, "proposer", []⟩))]

def done (pid n : Nat) : List (Event Request Choice Act) := List.replicate n (.run pid .done)

/-- One proposal is stored; the next push is refused. -/
def second : List (Event Request Choice Act) :=
  judging 0 7 "a" ++ verifying 0 ++ done 0 5 ++ judging 1 8 "bb"

/-- Two proposals at the nonce whose column is the least, up to the second's
storing. -/
def least : List (Event Request Choice Act) :=
  judging 0 (BitVec.intMin 64) "a" ++ verifying 0 ++ done 0 5 ++
    judging 1 (BitVec.intMin 64) "bb" ++ verifying 1 ++ done 1 4

def final (limit : Nat) (G : Guard Op Request World Choice Act)
    (events : List (Event Request Choice Act)) : Option (Conf Op Res World Request × Trail) :=
  runRecorded (machine .postgres) (handle .postgres fun _ => server limit) G noteJudged
    (Conf.start empty) (fun _ => []) events

end AtTheLimit

end Guardian.Capacity
