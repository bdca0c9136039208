import Guardian.Client.Sync
import Guardian.Lib.Rely

/- When a sync replaces the local account.

   An operation that has the client can rely on it: the others leave the client
   alone, blocks are only added, and what was sent stays sent. So the account and
   the submission a sync read at its start are those it replaces at its end,
   whatever GUARDIAN, the node and the chain did meanwhile, and whichever of its two
   answers the verdict was against.

   What a sync sees is true when it sees it and stays true: an expired transaction
   is one whose expiration has a block already, so that no later block has it. -/
namespace Guardian.ClientSync

open Interleaving
open Multisig (Word)
open Handler

variable {A : Type}

/-! ## What a replacement rests on -/

def pendingRecord (accountId : String) (records : List TransactionRecord) : Bool :=
  records.any fun record => record.accountId == accountId && record.status == .pending

/-- The sync saw that the local state is an untracked submission that has expired,
or that is stale and that GUARDIAN has no delta for. -/
def SawAbandoned (S : Sdk A) (account : A) (saw : List Saw) : Prop :=
  ∃ s height records, .submission s ∈ saw ∧ s.commitment = S.commitment account ∧
    .syncedTo height ∈ saw ∧ .records records ∈ saw ∧
    pendingRecord (S.accountId account) records = false ∧
    (s.expirationBlockNum ≤ height ∨
      (s.submissionHeight < height - txDiscardDelta ∧
        ∃ answer, .delta (S.nonce account) answer ∈ saw ∧
          holdsNone S (S.commitment account) answer = true))

/-- The last it saw is the node's report of the fresh state, or of none. -/
def SawOnChain (S : Sdk A) (fresh : A) (saw : List Saw) : Prop :=
  ∃ block state before, saw = .reported block state :: before ∧
    (state = none ∨ state = some (S.commitment fresh))

structure Evidence (S : Sdk A) (account fresh : A) (saw : List Saw) : Prop where
  onChain : SawOnChain S fresh saw
  abandoned : S.nonce fresh ≤ S.nonce account → SawAbandoned S account saw

theorem SawAbandoned.cons {S : Sdk A} {account : A} {saw : List Saw}
    (h : SawAbandoned S account saw) (v : Saw) : SawAbandoned S account (v :: saw) := by
  obtain ⟨s, height, records, hs, hcommitment, hheight, hrecords, hnone, hdead⟩ := h
  refine ⟨s, height, records, List.mem_cons_of_mem v hs, hcommitment, List.mem_cons_of_mem v hheight,
    List.mem_cons_of_mem v hrecords, hnone, ?_⟩
  obtain hexpired | ⟨hstale, answer, hanswer, hholds⟩ := hdead
  · exact .inl hexpired
  · exact .inr ⟨hstale, answer, List.mem_cons_of_mem v hanswer, hholds⟩

/-! ## What stays true -/

/-- What was seen, in the world. -/
def Saw.holds (w : World A) : Saw → Prop
  | .submission s => w.sent s.tx = some s.expirationBlockNum
  | .syncedTo height => height < w.blocks.length
  | .reported block state => ∃ b, w.blocks[block]? = some b ∧ b.state = state
  | _ => True

/-- Blocks are only added, and what was sent stays sent. -/
structure Grows (w w' : World A) : Prop where
  blocks : w.blocks <+: w'.blocks
  sent : ∀ {tx e}, w.sent tx = some e → w'.sent tx = some e

theorem Grows.refl (w : World A) : Grows w w := ⟨List.prefix_refl _, id⟩

theorem Grows.trans {w w' w'' : World A} (h : Grows w w') (h' : Grows w' w'') : Grows w w'' :=
  ⟨h.blocks.trans h'.blocks, h'.sent ∘ h.sent⟩

theorem getElem?_of_prefix {l l' : List Block} (h : l <+: l') {n : Nat} {b : Block}
    (hb : l[n]? = some b) : l'[n]? = some b := by
  obtain ⟨rest, rfl⟩ := h
  exact List.getElem?_append_left (List.getElem?_eq_some_iff.mp hb).1 ▸ hb

theorem Saw.holds_grows {w w' : World A} (hw : Grows w w') {v : Saw} (h : v.holds w) :
    v.holds w' := by
  cases v with
  | submission s => exact hw.sent h
  | syncedTo height => exact h.trans_le hw.blocks.length_le
  | reported block state =>
    obtain ⟨b, hb, hstate⟩ := h
    exact ⟨b, getElem?_of_prefix hw.blocks hb, hstate⟩
  | records | delta => trivial

/-! ## The discipline -/

/-- A replacement that rests on what was true. -/
structure Rightful (S : Sdk A) (w : World A) (r : Replacement A) : Prop where
  evidence : ∃ account, r.before = some account ∧ Evidence S account r.fresh r.saw
  saw : ∀ v ∈ r.saw, v.holds w
  synced : ∀ height, .syncedTo height ∈ r.saw → height < r.blocks

/-- The store is synced to a block there is; no block has an expired transaction;
the submission is one that was sent; and all that was seen is true. -/
structure Inv (S : Sdk A) (x : World A × Log A) : Prop where
  synced : x.1.client.syncHeight < x.1.blocks.length
  included : ∀ {n b tx e}, x.1.blocks[n]? = some b → tx ∈ b.included → x.1.sent tx = some e → n ≤ e
  submission : ∀ {s}, x.1.client.submission = some s → x.1.sent s.tx = some s.expirationBlockNum
  saw : ∀ {pid v}, v ∈ x.2.saw pid → v.holds x.1
  replaced : ∀ {r}, r ∈ x.2.replaced → Rightful S x.1 r

/-- The calls that change the client. -/
def Op.changes : Op A → Bool
  | .takeAccount | .setAccount _ | .replaceAccount _ | .recordSubmission _ | .rollBackStore _
  | .addOrUpdateAccount _ | .resetMidenClient | .syncState | .applyTransactionUpdate _ => true
  | _ => false

/-- The calls that set the account. -/
def Op.sets : Op A → Bool
  | .takeAccount | .setAccount _ | .replaceAccount _ => true
  | _ => false

/-- The client is changed by the operation that has it, a submission recorded after
it was sent, and the account replaced on evidence. -/
structure CallOk (S : Sdk A) (pid : Nat) (x : World A × Log A) (op : Op A) : Prop where
  busy : op.changes = true → x.1.busy = some pid
  recorded : ∀ s, op = .recordSubmission s → x.1.sent s.tx = some s.expirationBlockNum
  replaced : ∀ fresh, op = .replaceAccount fresh → ∃ account,
    x.1.client.account = some account ∧ Evidence S account fresh (x.2.saw pid)

/-- What an operation that has the client finds as it left it. -/
structure Left (pid : Nat) (x y : World A × Log A) : Prop where
  saw : y.2.saw pid = x.2.saw pid
  grows : Grows x.1 y.1
  busy : x.1.busy = some pid → y.1.busy = some pid
  client : x.1.busy = some pid → y.1.client = x.1.client

def exclusive (S : Sdk A) : Rely (Op A) (World A × Log A) where
  inv := Inv S
  rely := Left
  ok := fun pid op x => CallOk S pid x op
  refl := fun x => ⟨rfl, Grows.refl x.1, id, fun _ => rfl⟩
  trans := fun h h' => ⟨h'.saw.trans h.saw, h.grows.trans h'.grows, h'.busy ∘ h.busy,
    fun hbusy => (h'.client (h.busy hbusy)).trans (h.client hbusy)⟩

/-! ## What a call does -/

/-- The effect of a call on the world. -/
inductive Effect (pid : Nat) (w : World A) (op : Op A) : World A → Prop where
  | same : Effect pid w op w
  | begun (hop : op = .begin) (hfree : w.busy = none) : Effect pid w op { w with busy := some pid }
  | finished (hop : op = .finish) :
      Effect pid w op { w with busy := if w.busy = some pid then none else w.busy }
  | changed (client : Client A) (hop : op.changes = true)
      (haccount : op.sets = false → client.account = w.client.account)
      (hheight : w.client.syncHeight < w.blocks.length → client.syncHeight < w.blocks.length)
      (hsubmission : ∀ s, client.submission = some s →
        w.client.submission = some s ∨ op = .recordSubmission s) :
      Effect pid w op (w.withClient client)
  | sent (tx expirationBlockNum : Nat) (hnew : w.unsent tx = true) :
      Effect pid w op (w.send tx expirationBlockNum)

theorem exec_effect {pid : Nat} {op : Op A} {ch : Choice A} {w w' : World A} {r : Res op}
    (h : exec pid op ch w = some (r, w')) : Effect pid w op w' := by
  cases op with
  | begin =>
    cases ch with
    | done =>
      rw [exec] at h
      split at h
      · rename_i hfree
        cases h
        exact .begun rfl hfree
      · cases h
    | _ => cases h
  | finish =>
    cases ch with
    | done => cases h; exact .finished rfl
    | _ => cases h
  | account | untrackedSubmission | getCanonicalNonce | getState | getDelta | getSyncHeight
  | uncommittedTransactions | inputNotesToCarry | storedAccount | executeTransaction =>
    cases ch <;> cases h <;> exact .same
  | onChainCommitment =>
    cases ch with
    | node block =>
      rw [exec] at h
      split at h
      · split at h
        · cases h; exact .same
        · cases h
      · cases h
    | failed => cases h; exact .same
    | _ => cases h
  | takeAccount | setAccount | replaceAccount =>
    cases ch with
    | done =>
      cases h
      refine .changed _ rfl ?_ id fun _ hs => .inl hs
      rintro ⟨⟩
    | _ => cases h
  | recordSubmission s =>
    cases ch with
    | done =>
      cases h
      refine .changed _ rfl (fun _ => rfl) id fun s' hs => .inr ?_
      rw [Option.some.inj hs]
    | _ => cases h
  | rollBackStore fresh =>
    cases ch with
    | synced block stored records =>
      rw [exec] at h
      split at h
      · rename_i hblock
        cases h
        refine .changed _ rfl (fun _ => rfl) (fun _ => hblock) ?_
        rintro s ⟨⟩
      · cases h
    | failed => cases h; exact .same
    | _ => cases h
  | addOrUpdateAccount account =>
    cases ch with
    | done => cases h; exact .changed _ rfl (fun _ => rfl) id fun _ hs => .inl hs
    | mismatch | failed => cases h; exact .same
    | _ => cases h
  | resetMidenClient =>
    cases ch with
    | done =>
      cases h
      exact .changed _ rfl (fun _ => rfl) (fun hheight => Nat.zero_lt_of_lt hheight) fun _ hs => .inl hs
    | failed => cases h; exact .same
    | _ => cases h
  | syncState =>
    cases ch with
    | synced block stored records =>
      rw [exec] at h
      split at h
      · rename_i hblock
        cases h
        exact .changed _ rfl (fun _ => rfl) (fun _ => hblock) fun _ hs => .inl hs
      · cases h
    | failed => cases h; exact .same
    | _ => cases h
  | submitProven expirationBlockNum =>
    cases ch with
    | submitted tx submissionHeight =>
      rw [exec] at h
      split at h
      · rename_i hnew
        cases h
        exact .sent tx expirationBlockNum hnew
      · cases h
    | lost tx =>
      rw [exec] at h
      split at h
      · rename_i hnew
        cases h
        exact .sent tx expirationBlockNum hnew
      · cases h
    | failed => cases h; exact .same
    | _ => cases h
  | applyTransactionUpdate post =>
    cases ch with
    | synced block stored records => cases h; exact .changed _ rfl (fun _ => rfl) id fun _ hs => .inl hs
    | failed => cases h; exact .same
    | _ => cases h

theorem unsent_iff {w : World A} {tx : Nat} : w.unsent tx = true ↔
    w.sent tx = none ∧ ∀ b ∈ w.blocks, tx ∉ b.included := by
  simp [World.unsent]

theorem send_grows {w : World A} {tx : Nat} (hnew : w.unsent tx = true) (e : Nat) :
    Grows w (w.send tx e) := by
  refine ⟨List.prefix_refl _, fun {tx' e'} hsent => ?_⟩
  have hne : tx' ≠ tx := by
    rintro rfl
    rw [(unsent_iff.mp hnew).1] at hsent
    cases hsent
  exact (Function.update_of_ne hne _ _).trans hsent

theorem Effect.grows {pid : Nat} {op : Op A} {w w' : World A} (h : Effect pid w op w') :
    Grows w w' := by
  cases h with
  | sent tx e hnew => exact send_grows hnew e
  | _ => exact ⟨List.prefix_refl _, id⟩

theorem Effect.blocks {pid : Nat} {op : Op A} {w w' : World A} (h : Effect pid w op w') :
    w'.blocks = w.blocks := by
  cases h <;> rfl

/-- A call takes neither the client nor its time from another operation. -/
theorem Effect.left {pid q : Nat} {op : Op A} {w w' : World A} (h : Effect pid w op w')
    (hok : op.changes = true → w.busy = some pid) (hq : q ≠ pid) (hbusy : w.busy = some q) :
    w'.busy = some q ∧ w'.client = w.client := by
  cases h with
  | same | sent => exact ⟨hbusy, rfl⟩
  | begun hop hfree =>
    rw [hfree] at hbusy
    cases hbusy
  | finished =>
    refine ⟨?_, rfl⟩
    show (if w.busy = some pid then none else w.busy) = some q
    rw [hbusy, if_neg]
    exact fun heq => hq (Option.some.inj heq)
  | changed client hop =>
    have hmine := hok hop
    rw [hbusy] at hmine
    exact absurd (Option.some.inj hmine) hq

/-- Beside its start and its end, a call leaves its operation the client. -/
theorem Effect.busy {pid : Nat} {op : Op A} {w w' : World A} (h : Effect pid w op w')
    (hbegin : op ≠ .begin) (hfinish : op ≠ .finish) : w'.busy = w.busy := by
  cases h with
  | begun hop => exact absurd hop hbegin
  | finished hop => exact absurd hop hfinish
  | _ => rfl

theorem Effect.account {pid : Nat} {op : Op A} {w w' : World A} (h : Effect pid w op w')
    (hop : op.sets = false) : w'.client.account = w.client.account := by
  cases h with
  | changed client _ haccount => exact haccount hop
  | _ => rfl

/-! ## What a call notes -/

/-- What a call lets its operation see. -/
def seen : (op : Op A) → Choice A → World A → List Saw
  | .untrackedSubmission, .done, w => w.client.submission.toList.map .submission
  | .getSyncHeight, .done, w => [.syncedTo w.client.syncHeight]
  | .uncommittedTransactions, .done, w => [.records w.client.records]
  | .onChainCommitment, .node block, w =>
    (w.blocks[block]?).toList.map fun b => .reported block b.state
  | .getDelta nonce, .delta answer, _ => [.delta nonce answer]
  | _, _, _ => []

theorem noteSaw_saw (pid : Nat) (op : Op A) (ch : Choice A) (w : World A) (log : Log A) :
    (noteSaw pid op ch w log).saw = Function.update log.saw pid (seen op ch w ++ log.saw pid) := by
  have hsame : log.saw = Function.update log.saw pid ([] ++ log.saw pid) :=
    (Function.update_eq_self pid log.saw).symm
  cases op with
  | untrackedSubmission =>
    cases ch with
    | done =>
      rw [noteSaw, seen]
      split
      · rename_i s hs
        rw [hs]
        rfl
      · rename_i hs
        rw [hs]
        exact hsame
    | _ => exact hsame
  | onChainCommitment =>
    cases ch with
    | node block =>
      rw [noteSaw, seen]
      split
      · rename_i b hb
        rw [hb]
        rfl
      · rename_i hb
        rw [hb]
        exact hsame
    | _ => exact hsame
  | getSyncHeight | uncommittedTransactions | replaceAccount =>
    cases ch with
    | done => first | rfl | exact hsame
    | _ => exact hsame
  | getDelta nonce =>
    cases ch with
    | delta answer => rfl
    | _ => exact hsame
  | _ => exact hsame

theorem noteSaw_self (pid : Nat) (op : Op A) (ch : Choice A) (w : World A) (log : Log A) :
    (noteSaw pid op ch w log).saw pid = seen op ch w ++ log.saw pid := by
  rw [noteSaw_saw, Function.update_self]

theorem noteSaw_other {pid q : Nat} (hq : q ≠ pid) (op : Op A) (ch : Choice A) (w : World A)
    (log : Log A) : (noteSaw pid op ch w log).saw q = log.saw q := by
  rw [noteSaw_saw, Function.update_of_ne hq]

/-- Only a replacement is noted as one. -/
theorem noteSaw_replaced {pid : Nat} {op : Op A} {ch : Choice A} {w : World A} {log : Log A}
    {r : Replacement A} (hr : r ∈ (noteSaw pid op ch w log).replaced) :
    r ∈ log.replaced ∨
      op = .replaceAccount r.fresh ∧ r.before = w.client.account ∧ r.saw = log.saw pid ∧
        r.blocks = w.blocks.length := by
  cases op with
  | untrackedSubmission =>
    cases ch with
    | done =>
      rw [noteSaw] at hr
      split at hr
      · exact .inl hr
      · exact .inl hr
    | _ => exact .inl hr
  | onChainCommitment =>
    cases ch with
    | node block =>
      rw [noteSaw] at hr
      split at hr
      · exact .inl hr
      · exact .inl hr
    | _ => exact .inl hr
  | replaceAccount fresh =>
    cases ch with
    | done =>
      obtain rfl | hr := List.mem_cons.mp hr
      · exact .inr ⟨rfl, rfl, rfl, rfl⟩
      · exact .inl hr
    | _ => exact .inl hr
  | getSyncHeight | uncommittedTransactions | getDelta => cases ch <;> exact .inl hr
  | _ => exact .inl hr

/-! ## Every step keeps the discipline -/

theorem Rightful.grows {S : Sdk A} {w w' : World A} (hw : Grows w w') {r : Replacement A}
    (h : Rightful S w r) : Rightful S w' r :=
  ⟨h.evidence, fun v hv => Saw.holds_grows hw (h.saw v hv), h.synced⟩

/-- What a call lets its operation see is so. -/
theorem seen_holds {S : Sdk A} {x : World A × Log A} (hx : Inv S x) {op : Op A} {ch : Choice A}
    {v : Saw} (hv : v ∈ seen op ch x.1) : v.holds x.1 := by
  cases op with
  | untrackedSubmission =>
    cases ch with
    | done =>
      obtain ⟨s, hs, rfl⟩ := List.mem_map.mp hv
      exact hx.submission (Option.mem_toList.mp hs)
    | _ => cases hv
  | getSyncHeight =>
    cases ch with
    | done =>
      rw [List.mem_singleton.mp hv]
      exact hx.synced
    | _ => cases hv
  | uncommittedTransactions =>
    cases ch with
    | done =>
      rw [List.mem_singleton.mp hv]
      trivial
    | _ => cases hv
  | onChainCommitment =>
    cases ch with
    | node block =>
      obtain ⟨b, hb, rfl⟩ := List.mem_map.mp hv
      exact ⟨b, Option.mem_toList.mp hb, rfl⟩
    | _ => cases hv
  | getDelta nonce =>
    cases ch with
    | delta answer =>
      rw [List.mem_singleton.mp hv]
      trivial
    | _ => cases hv
  | _ => cases hv

theorem Effect.included {S : Sdk A} {x : World A × Log A} (hx : Inv S x) {pid : Nat} {op : Op A}
    {w' : World A} (h : Effect pid x.1 op w') {n : Nat} {b : Block} {tx e : Nat}
    (hb : w'.blocks[n]? = some b) (htx : tx ∈ b.included) (hsent : w'.sent tx = some e) : n ≤ e := by
  rw [h.blocks] at hb
  cases h with
  | sent tx' e' hnew =>
    have hne : tx ≠ tx' := by
      rintro rfl
      exact (unsent_iff.mp hnew).2 b (List.mem_of_getElem? hb) htx
    have hold : x.1.sent tx = some e := (Function.update_of_ne hne _ _).symm.trans hsent
    exact hx.included hb htx hold
  | _ => exact hx.included hb htx hsent

theorem Effect.submission {S : Sdk A} {x : World A × Log A} (hx : Inv S x) {pid : Nat} {op : Op A}
    (hok : CallOk S pid x op) {w' : World A} (h : Effect pid x.1 op w') {s : UntrackedSubmission}
    (hs : w'.client.submission = some s) : w'.sent s.tx = some s.expirationBlockNum := by
  refine h.grows.sent ?_
  cases h with
  | changed client hop haccount hheight hsubmission =>
    obtain hs | hop := hsubmission s hs
    · exact hx.submission hs
    · exact hok.recorded s hop
  | _ => exact hx.submission hs

theorem Effect.synced {S : Sdk A} {x : World A × Log A} (hx : Inv S x) {pid : Nat} {op : Op A}
    {w' : World A} (h : Effect pid x.1 op w') : w'.client.syncHeight < w'.blocks.length := by
  cases h with
  | changed client hop haccount hheight => exact hheight hx.synced
  | _ => exact hx.synced

theorem call_inv {S : Sdk A} {x : World A × Log A} (hx : Inv S x) {pid : Nat} {op : Op A}
    (hok : CallOk S pid x op) {w' : World A} (h : Effect pid x.1 op w') (ch : Choice A) :
    Inv S (w', noteSaw pid op ch x.1 x.2) where
  synced := h.synced hx
  included := h.included hx
  submission := h.submission hx hok
  saw := fun {q v} hv => by
    refine Saw.holds_grows h.grows ?_
    by_cases hq : q = pid
    · subst hq
      rw [noteSaw_self] at hv
      obtain hv | hv := List.mem_append.mp hv
      · exact seen_holds hx hv
      · exact hx.saw hv
    · rw [noteSaw_other hq] at hv
      exact hx.saw hv
  replaced := fun {r} hr => by
    refine Rightful.grows h.grows ?_
    obtain hr | ⟨hop, hbefore, hsaw, hblocks⟩ := noteSaw_replaced hr
    · exact hx.replaced hr
    · obtain ⟨account, haccount, hevidence⟩ := hok.replaced r.fresh hop
      refine ⟨⟨account, hbefore.trans haccount, hsaw ▸ hevidence⟩, fun v hv => ?_, ?_⟩
      · rw [hsaw] at hv
        exact hx.saw hv
      · intro height hheight
        rw [hsaw] at hheight
        rw [hblocks]
        exact hx.saw hheight

/-- A block has no transaction after its expiration. -/
theorem act_inv {S : Sdk A} {x : World A × Log A} (hx : Inv S x) {b : Block}
    (hb : x.1.mayInclude b = true) :
    Inv S ({ x.1 with blocks := x.1.blocks ++ [b] }, x.2) := by
  have hgrows : Grows x.1 { x.1 with blocks := x.1.blocks ++ [b] } := ⟨List.prefix_append _ _, id⟩
  refine ⟨hx.synced.trans_le hgrows.blocks.length_le, ?_, hx.submission,
    fun hv => Saw.holds_grows hgrows (hx.saw hv), fun hr => Rightful.grows hgrows (hx.replaced hr)⟩
  intro n b' tx e hn htx hsent
  by_cases hold : n < x.1.blocks.length
  · rw [List.getElem?_append_left hold] at hn
    exact hx.included hn htx hsent
  · rw [List.getElem?_append_right (Nat.le_of_not_lt hold)] at hn
    obtain ⟨hlt, heq⟩ := List.getElem?_eq_some_iff.mp hn
    have hlast : n = x.1.blocks.length := by
      rw [List.length_singleton] at hlt
      omega
    rw [List.getElem_singleton] at heq
    subst heq
    have hmay := List.all_eq_true.mp hb tx htx
    have hsent' : x.1.sent tx = some e := hsent
    rw [hsent'] at hmay
    rw [hlast]
    exact of_decide_eq_true hmay

theorem exclusive_kept (S : Sdk A) :
    (exclusive S).Kept ((machine A).recorded noteSaw) (Guard.any : Guard (Op A) Request (World A) (Choice A) Act).recorded
      (fun _ _ _ => True) where
  call := fun {pid op ch x r y} _ hok _ hx hinv => by
    obtain ⟨hexec, hnote⟩ := recorded_exec hx
    have heffect := exec_effect hexec
    obtain ⟨w', log'⟩ := y
    obtain rfl : log' = noteSaw pid op ch x.1 x.2 := hnote
    refine ⟨call_inv hinv hok heffect ch, fun {q} hq => ?_⟩
    exact ⟨noteSaw_other hq op ch x.1 x.2, heffect.grows,
      fun hbusy => (heffect.left hok.busy hq hbusy).1,
      fun hbusy => (heffect.left hok.busy hq hbusy).2⟩
  act := fun {a x y} _ hx hinv => by
    obtain ⟨hact, hnote⟩ := recorded_act hx
    obtain ⟨w', log'⟩ := y
    obtain rfl : log' = x.2 := hnote
    cases a with
    | block b =>
      change act (.block b) x.1 = some w' at hact
      rw [act] at hact
      split at hact
      · rename_i hb
        cases hact
        exact ⟨act_inv hinv hb, rfl, ⟨List.prefix_append _ _, id⟩, id, fun _ => rfl⟩
      · cases hact

/-! ## One operation among the others -/

section Operation
variable {S : Sdk A} {pid : Nat} {α β : Type} {x : World A × Log A}

/-- Among operations that keep the discipline, the procedure makes only calls that
are in order, and ends with `Q` if it returns. -/
abbrev Spec (S : Sdk A) (pid : Nat) (p : Handler A α) (Q : α → World A × Log A → Prop)
    (x : World A × Log A) : Prop :=
  (exclusive S).Ensures ((machine A).recorded noteSaw)
    (Guard.any : Guard (Op A) Request (World A) (Choice A) Act).recorded pid p Q (fun _ => True) x

theorem spec_call {o : Op A} {Q : Res o → World A × Log A → Prop}
    (h : ∀ y, Left pid x y → CallOk S pid y o ∧
      ∀ ch r w, exec pid o ch y.1 = some (r, w) → Q r (w, noteSaw pid o ch y.1 y.2)) :
    Spec S pid (call o) Q x := by
  refine .op' fun y hleft _ => ?_
  obtain ⟨hok, hcall⟩ := h y hleft
  refine ⟨hok, fun ch r z _ hx _ => ?_⟩
  obtain ⟨hexec, hnote⟩ := recorded_exec hx
  obtain ⟨w, log⟩ := z
  obtain rfl : log = noteSaw pid o ch y.1 y.2 := hnote
  exact hcall ch r w hexec

theorem spec_orFail {r : Option α} {e : SyncError} :
    Spec S pid (orFail r e) (fun a y => r = some a ∧ y = x) x := by
  cases r with
  | none => exact .throw' e trivial
  | some a => exact .pure' ⟨rfl, rfl⟩

theorem spec_seq {p : Handler A α} {f : α → Handler A β} {Q : α → World A × Log A → Prop}
    {R : β → World A × Log A → Prop} (hp : Spec S pid p Q x)
    (hf : ∀ a y, Q a y → Spec S pid (f a) R y) : Spec S pid (p >>= f) R x :=
  .bind' (hp.mono hf)

/-! ## Calls that need no evidence -/

/-- The operation has the client. -/
def Has (pid : Nat) (x : World A × Log A) : Prop := x.1.busy = some pid

def Op.plain : Op A → Prop
  | .begin | .finish | .replaceAccount _ | .recordSubmission _ => False
  | _ => True

theorem plain_callOk {o : Op A} (ho : o.plain) (hhas : Has pid x) : CallOk S pid x o := by
  refine ⟨fun _ => hhas, ?_, ?_⟩
  · rintro s rfl
    exact ho.elim
  · rintro fresh rfl
    exact ho.elim

theorem plain_busy {o : Op A} (ho : o.plain) {w w' : World A} (h : Effect pid w o w') :
    w'.busy = w.busy := by
  refine h.busy ?_ ?_
  · rintro rfl
    exact ho
  · rintro rfl
    exact ho

theorem has_steady : (exclusive S).Steady ((machine A).recorded noteSaw)
    (Guard.any : Guard (Op A) Request (World A) (Choice A) Act).recorded pid Op.plain (Has pid) where
  stable := fun hleft hhas => hleft.busy hhas
  own := fun ho _ hx _ hhas => (plain_busy ho (exec_effect (recorded_exec hx).1)).trans hhas
  ok := fun ho _ hhas => plain_callOk ho hhas

/-- A part without replacement or record. -/
theorem spec_plain {p : Handler A α} (hp : Makes Op.plain p) (hhas : Has pid x) :
    Spec S pid p (fun _ y => Has pid y) x :=
  .frame has_steady hp hhas fun _ => trivial

theorem makes_orFail (r : Option α) (e : SyncError) :
    Makes (Op.plain (A := A)) (orFail r e) := by
  cases r with
  | none => exact .throw' e
  | some a => exact .pure' a

theorem makes_syncNetworkState : Makes (Op.plain (A := A)) syncNetworkState := by
  refine .bind' (.op' trivial) fun synced => ?_
  cases synced with
  | true => exact .pure' ()
  | false => exact .throw' _

theorem makes_refreshCachedAccountFromStore :
    Makes (Op.plain (A := A)) refreshCachedAccountFromStore := by
  refine .bind' (.op' trivial) fun taken => ?_
  cases taken with
  | none => exact .pure' ()
  | some account =>
    refine .bind' (.op' trivial) fun answer => .bind' (makes_orFail answer _) fun stored => ?_
    exact .bind' (makes_orFail stored _) fun account => .op' trivial

theorem makes_syncNetworkOnly : Makes (Op.plain (A := A)) syncNetworkOnly :=
  .bind' makes_syncNetworkState fun _ => makes_refreshCachedAccountFromStore

theorem makes_finalizeTracked : Makes (Op.plain (A := A)) finalizeTracked := by
  refine .bind' (.op' trivial) fun executed => .bind' (makes_orFail executed _) fun post => ?_
  refine .bind' (.op' trivial) fun submitted => .bind' (makes_orFail submitted _) fun _ => ?_
  refine .bind' (.op' trivial) fun applied => ?_
  cases applied with
  | false => exact .throw' _
  | true =>
    refine .bind' (.op' trivial) fun _ => .bind' (.op' trivial) fun answer => ?_
    refine .bind' (makes_orFail answer _) fun stored => ?_
    exact .bind' (makes_orFail stored _) fun account => .op' trivial

/-! ## What a sync learns -/

/-- The operation has the client, whose account is this, and has seen just this. -/
structure Knows (pid : Nat) (account : A) (saw : List Saw) (x : World A × Log A) : Prop where
  has : Has pid x
  account : x.1.client.account = some account
  saw : x.2.saw pid = saw

/-- The calls between a sync's start and the replacement. -/
def Op.keeps (o : Op A) : Prop := o.plain ∧ o.sets = false

theorem Knows.left {account : A} {saw : List Saw} {y : World A × Log A}
    (h : Knows pid account saw x) (hleft : Left pid x y) : Knows pid account saw y :=
  ⟨hleft.busy h.has, (congrArg Client.account (hleft.client h.has)).trans h.account,
    hleft.saw.trans h.saw⟩

theorem Knows.call {o : Op A} (ho : o.keeps) {account : A} {saw : List Saw} {ch : Choice A}
    {r : Res o} {w : World A} (h : Knows pid account saw x)
    (hx : exec pid o ch x.1 = some (r, w)) :
    Knows pid account (seen o ch x.1 ++ saw) (w, noteSaw pid o ch x.1 x.2) := by
  have heffect := exec_effect hx
  refine ⟨(plain_busy ho.1 heffect).trans h.has, (heffect.account ho.2).trans h.account, ?_⟩
  rw [← h.saw]
  exact noteSaw_self pid o ch x.1 x.2

/-- A call whose answer is what the operation sees. -/
theorem spec_sees {o : Op A} (ho : o.keeps) (sees : Res o → List Saw)
    (hsees : ∀ {ch w r w'}, exec pid o ch w = some (r, w') → seen o ch w = sees r) {account : A}
    {saw : List Saw} (h : Knows pid account saw x) :
    Spec S pid (call o) (fun r y => Knows pid account (sees r ++ saw) y) x := by
  refine spec_call fun y hleft => ?_
  have hy := h.left hleft
  refine ⟨plain_callOk ho.1 hy.has, fun ch r w hx => ?_⟩
  rw [← hsees hx]
  exact hy.call ho hx

theorem spec_untrackedSubmission {account : A} {saw : List Saw} (h : Knows pid account saw x) :
    Spec S pid (call .untrackedSubmission)
      (fun r y => Knows pid account (r.toList.map .submission ++ saw) y) x := by
  refine spec_sees (o := .untrackedSubmission) ⟨trivial, rfl⟩ (fun r => r.toList.map .submission)
    (fun {ch _ _ _} hx => ?_) h
  cases ch <;> cases hx
  rfl

theorem spec_getSyncHeight {account : A} {saw : List Saw} (h : Knows pid account saw x) :
    Spec S pid (call .getSyncHeight)
      (fun r y => Knows pid account (r.toList.map .syncedTo ++ saw) y) x := by
  refine spec_sees (o := .getSyncHeight) ⟨trivial, rfl⟩ (fun r => r.toList.map .syncedTo)
    (fun {ch _ _ _} hx => ?_) h
  cases ch <;> cases hx <;> rfl

theorem spec_uncommittedTransactions {account : A} {saw : List Saw}
    (h : Knows pid account saw x) :
    Spec S pid (call .uncommittedTransactions)
      (fun r y => Knows pid account (r.toList.map .records ++ saw) y) x := by
  refine spec_sees (o := .uncommittedTransactions) ⟨trivial, rfl⟩ (fun r => r.toList.map .records)
    (fun {ch _ _ _} hx => ?_) h
  cases ch <;> cases hx <;> rfl

theorem spec_getDelta (nonce : Nat) {account : A} {saw : List Saw}
    (h : Knows pid account saw x) :
    Spec S pid (call (.getDelta nonce))
      (fun r y => Knows pid account (.delta nonce r :: saw) y) x := by
  refine spec_sees (o := .getDelta nonce) ⟨trivial, rfl⟩ (fun r => [.delta nonce r])
    (fun {ch _ _ _} hx => ?_) h
  cases ch <;> cases hx
  rfl

/-- The node answers from a block. -/
theorem spec_onChainCommitment {account : A} {saw : List Saw} (h : Knows pid account saw x) :
    Spec S pid (call .onChainCommitment) (fun r y => match r with
      | some state => ∃ block, Knows pid account (.reported block state :: saw) y
      | none => Knows pid account saw y) x := by
  have hkeeps : (Op.onChainCommitment : Op A).keeps := ⟨trivial, rfl⟩
  refine spec_call fun y hleft => ?_
  have hy := h.left hleft
  refine ⟨plain_callOk trivial hy.has, fun ch r w hx => ?_⟩
  have hknows := hy.call hkeeps hx
  cases ch with
  | node block =>
    rw [exec] at hx
    split at hx
    · split at hx
      · rename_i b hb
        cases hx
        rw [seen, hb] at hknows
        exact ⟨block, hknows⟩
      · cases hx
    · cases hx
  | failed =>
    cases hx
    exact hknows
  | _ => cases hx

/-- A call the operation sees nothing by. -/
def Op.quiet (o : Op A) : Prop := o.keeps ∧ ∀ ch w, seen o ch w = []

theorem knows_steady (account : A) (saw : List Saw) :
    (exclusive S).Steady ((machine A).recorded noteSaw)
      (Guard.any : Guard (Op A) Request (World A) (Choice A) Act).recorded pid Op.quiet
      (Knows pid account saw) where
  stable := fun hleft h => h.left hleft
  own := fun {o ch r x y} ho _ hx _ h => by
    obtain ⟨hexec, hnote⟩ := recorded_exec hx
    obtain ⟨w, log⟩ := y
    obtain rfl : log = noteSaw pid o ch x.1 x.2 := hnote
    have hy := h.call ho.1 hexec
    rwa [ho.2] at hy
  ok := fun ho _ h => plain_callOk ho.1.1 h.has

theorem spec_quiet {p : Handler A α} (hp : Makes Op.quiet p) {account : A} {saw : List Saw}
    (h : Knows pid account saw x) : Spec S pid p (fun _ y => Knows pid account saw y) x :=
  .frame (knows_steady account saw) hp h fun _ => trivial

theorem makes_storeAhead (fresh : A) : Makes Op.quiet (storeAhead fresh) := by
  have hstore : (Op.addOrUpdateAccount fresh).quiet := ⟨⟨trivial, rfl⟩, fun _ _ => rfl⟩
  have hreset : (Op.resetMidenClient : Op A).quiet := ⟨⟨trivial, rfl⟩, fun _ _ => rfl⟩
  refine .bind' (.op' hstore) fun answer => ?_
  cases answer with
  | stored => exact .pure' ()
  | failed => exact .throw' _
  | commitmentMismatch =>
    refine .bind' (.op' hreset) fun isReset => ?_
    cases isReset with
    | false => exact .throw' _
    | true =>
      refine .bind' (.op' hstore) fun answer => ?_
      cases answer with
      | stored => exact .pure' ()
      | _ => exact .throw' _

/-! ## A sync -/

theorem spec_ensureSafe {account : A} {saw : List Saw} (h : Knows pid account saw x)
    (incoming : Word) :
    Spec S pid (ensureSafeToOverwriteLocalState incoming)
      (fun _ y => ∃ block state, Knows pid account (.reported block state :: saw) y ∧
        (state = none ∨ state = some incoming)) x := by
  refine spec_seq (spec_onChainCommitment h) fun answer y hy => spec_seq spec_orFail ?_
  rintro onChain z ⟨rfl, rfl⟩
  obtain ⟨block, hknows⟩ := hy
  cases onChain with
  | none => exact .pure' ⟨block, none, hknows, .inl rfl⟩
  | some onChain =>
    show Spec S pid (if onChain = incoming then _ else _) _ z
    split
    · rename_i heq
      exact .pure' ⟨block, some onChain, hknows, .inr (congrArg some heq)⟩
    · exact .throw' _ trivial

/-- The verdict of a judgement of the local state. -/
def Judged (S : Sdk A) (pid : Nat) (account : A) (abandoned : Bool) (x : World A × Log A) : Prop :=
  ∃ saw, Knows pid account saw x ∧ (abandoned = true → SawAbandoned S account saw)

theorem Knows.notAbandoned {account : A} {saw : List Saw} (h : Knows pid account saw x) :
    Judged S pid account false x := by
  refine ⟨saw, h, ?_⟩
  rintro ⟨⟩

/-- A submission of the local state, dropped at the height the store is synced to. -/
structure SawDropped (S : Sdk A) (account : A) (s : UntrackedSubmission) (height : Nat)
    (saw : List Saw) : Prop where
  submission : .submission s ∈ saw
  commitment : s.commitment = S.commitment account
  syncedTo : .syncedTo height ∈ saw
  dropped : s.droppedAt height = true

theorem SawDropped.cons {account : A} {s : UntrackedSubmission} {height : Nat} {saw : List Saw}
    (h : SawDropped S account s height saw) (v : Saw) : SawDropped S account s height (v :: saw) :=
  ⟨List.mem_cons_of_mem v h.submission, h.commitment, List.mem_cons_of_mem v h.syncedTo, h.dropped⟩

theorem SawDropped.expired {account : A} {s : UntrackedSubmission} {height : Nat} {saw : List Saw}
    (h : SawDropped S account s height saw) {records : List TransactionRecord}
    (hrecords : .records records ∈ saw)
    (hnone : pendingRecord (S.accountId account) records = false)
    (hexpired : s.expiredAt height = true) : SawAbandoned S account saw :=
  ⟨s, height, records, h.submission, h.commitment, h.syncedTo, hrecords, hnone,
    .inl (of_decide_eq_true hexpired)⟩

theorem SawDropped.stale {account : A} {s : UntrackedSubmission} {height : Nat} {saw : List Saw}
    (h : SawDropped S account s height saw) {records : List TransactionRecord}
    (hrecords : .records records ∈ saw)
    (hnone : pendingRecord (S.accountId account) records = false)
    (hexpired : ¬ s.expiredAt height = true) {answer : DeltaAnswer}
    (hanswer : .delta (S.nonce account) answer ∈ saw)
    (hholds : holdsNone S (S.commitment account) answer = true) : SawAbandoned S account saw := by
  have hdropped := h.dropped
  rw [UntrackedSubmission.droppedAt, Bool.or_eq_true] at hdropped
  obtain hexp | hstale := hdropped
  · exact absurd hexp hexpired
  · exact ⟨s, height, records, h.submission, h.commitment, h.syncedTo, hrecords, hnone,
      .inr ⟨of_decide_eq_true hstale, answer, hanswer, hholds⟩⟩

theorem spec_droppedAbandoned {account : A} {saw : List Saw} (h : Knows pid account saw x)
    {s : UntrackedSubmission} {height : Nat} (hs : SawDropped S account s height saw)
    (guardianCommitment : Word) :
    Spec S pid (droppedAbandoned S s height (S.accountId account) (S.nonce account)
      (S.commitment account) guardianCommitment) (Judged S pid account) x := by
  refine spec_seq (spec_uncommittedTransactions h) fun answer y hy => ?_
  cases answer with
  | none => exact .pure' hy.notAbandoned
  | some records =>
    show Spec S pid (if pendingRecord (S.accountId account) records = true then _ else _) _ y
    split
    · exact .pure' hy.notAbandoned
    · rename_i hpending
      have hnone := Bool.eq_false_iff.mpr hpending
      refine spec_seq (spec_onChainCommitment hy) fun answer z hz => ?_
      cases answer with
      | none => exact .pure' (Knows.notAbandoned hz)
      | some onChain =>
        obtain ⟨block, hz⟩ := hz
        have hrecords : Saw.records records ∈ .reported block onChain :: .records records :: saw :=
          List.mem_cons_of_mem _ List.mem_cons_self
        have hs' := (hs.cons (.records records)).cons (.reported block onChain)
        show Spec S pid (if onChain = some guardianCommitment then _ else _) _ z
        split
        · split
          · rename_i hexpired
            exact .pure' ⟨_, hz, fun _ => hs'.expired hrecords hnone hexpired⟩
          · rename_i hexpired
            refine spec_seq (spec_getDelta _ hz) fun answer v hv => ?_
            refine .pure' ⟨_, hv, fun hholds => ?_⟩
            exact (hs'.cons _).stale (List.mem_cons_of_mem _ hrecords) hnone hexpired
              List.mem_cons_self hholds
        · exact .pure' hz.notAbandoned

theorem spec_localStateAbandoned {account : A} {saw : List Saw} (h : Knows pid account saw x)
    (guardianCommitment : Word) :
    Spec S pid (localStateAbandoned S (S.accountId account) (S.nonce account)
      (S.commitment account) guardianCommitment) (Judged S pid account) x := by
  refine spec_seq (spec_untrackedSubmission h) fun recorded y hy => ?_
  cases hfilter : recorded.filter (fun s => s.commitment = S.commitment account) with
  | none => exact .pure' hy.notAbandoned
  | some s =>
    obtain ⟨rfl, hcommitment⟩ := Option.filter_eq_some_iff.mp hfilter
    refine spec_seq (spec_getSyncHeight hy) fun answer z hz => ?_
    cases answer with
    | none => exact .pure' hz.notAbandoned
    | some height =>
      show Spec S pid (if s.droppedAt height = true then _ else _) _ z
      split
      · rename_i hdropped
        refine spec_droppedAbandoned hz ⟨?_, of_decide_eq_true hcommitment, ?_, hdropped⟩ _
        · exact List.mem_cons_of_mem _ List.mem_cons_self
        · exact List.mem_cons_self
      · exact .pure' hz.notAbandoned

theorem spec_replaceAccount {account fresh : A} {saw : List Saw} (h : Knows pid account saw x)
    (hevidence : Evidence S account fresh saw) :
    Spec S pid (call (.replaceAccount fresh)) (fun _ y => Has pid y) x := by
  refine spec_call fun y hleft => ?_
  have hy := h.left hleft
  refine ⟨⟨fun _ => hy.has, ?_, ?_⟩, fun ch r w hx => ?_⟩
  · rintro s ⟨⟩
  · rintro fresh' ⟨⟩
    exact ⟨account, hy.account, hy.saw ▸ hevidence⟩
  · have hbusy := (exec_effect hx).busy (by simp) (by simp)
    exact hbusy.trans hy.has

/-- The state replaces the local account only on evidence. -/
theorem spec_install {account fresh : A} {saw : List Saw} (h : Knows pid account saw x)
    {rollingBack : Bool} (hback : rollingBack = decide (S.nonce fresh ≤ S.nonce account))
    (habandoned : rollingBack = true → SawAbandoned S account saw) :
    Spec S pid (install S fresh rollingBack) (fun _ y => Has pid y) x := by
  refine spec_seq (spec_ensureSafe h _) fun _ y hy => ?_
  obtain ⟨block, state, hknows, hstate⟩ := hy
  have hevidence : Evidence S account fresh (.reported block state :: saw) := by
    refine ⟨⟨block, state, saw, rfl, hstate⟩, fun hle => ?_⟩
    rw [hback] at habandoned
    exact (habandoned (decide_eq_true hle)).cons _
  cases rollingBack with
  | true =>
    have hnotes : (Op.inputNotesToCarry : Op A).quiet := ⟨⟨trivial, rfl⟩, fun _ _ => rfl⟩
    have hstore : (Op.rollBackStore fresh).quiet := ⟨⟨trivial, rfl⟩, fun _ _ => rfl⟩
    refine spec_seq (spec_quiet (.op' hnotes) hknows) fun notes z hz => spec_seq spec_orFail ?_
    rintro carried z' ⟨-, rfl⟩
    cases carried with
    | false => exact .pure' hz.has
    | true =>
      refine spec_seq (spec_quiet (.op' hstore) hz) fun rolledBack v hv => ?_
      cases rolledBack with
      | false => exact .throw' _ trivial
      | true =>
        exact spec_seq (spec_replaceAccount hv hevidence) fun _ u hu => .pure' hu
  | false =>
    refine spec_seq (spec_quiet (makes_storeAhead fresh) hknows) fun _ z hz => ?_
    exact spec_seq (spec_replaceAccount hz hevidence) fun _ u hu => .pure' hu

/-- The account is the one the client has. -/
theorem spec_account (hhas : Has pid x) :
    Spec S pid (call .account) (fun r y => ∀ account, r = some account →
      ∃ saw, Knows pid account saw y) x := by
  refine spec_call fun y hleft => ?_
  have hy := hleft.busy hhas
  refine ⟨plain_callOk trivial hy, fun ch r w hx => ?_⟩
  cases ch with
  | done =>
    cases hx
    intro account haccount
    exact ⟨_, hy, haccount, rfl⟩
  | _ => cases hx

/-- From the fetch of the state on, with a verdict against the head or without. -/
theorem spec_fetchState {account : A} {saw : List Saw} (h : Knows pid account saw x)
    (abandonedAgainst : Option Word)
    (hverdict : abandonedAgainst.isSome = true → SawAbandoned S account saw) :
    Spec S pid (fetchState S account abandonedAgainst) (fun _ y => Has pid y) x := by
  have hstate : (Op.getState : Op A).quiet := ⟨⟨trivial, rfl⟩, fun _ _ => rfl⟩
  refine spec_seq (spec_quiet (.op' hstate) h) fun answer y hy => spec_seq spec_orFail ?_
  rintro answer' y' ⟨-, rfl⟩
  refine spec_seq spec_orFail ?_
  rintro state y ⟨-, rfl⟩
  refine spec_seq spec_orFail ?_
  rintro guardianCommitment y' ⟨-, rfl⟩
  show Spec S pid (if S.commitment account = guardianCommitment then _ else _) _ y'
  split
  · exact .pure' hy.has
  · refine spec_seq spec_orFail ?_
    rintro fresh y ⟨-, rfl⟩
    show Spec S pid (if (decide (S.nonce fresh ≤ S.nonce account) &&
      !(abandonedAgainst == some guardianCommitment)) = true then _ else _) _ y
    split
    · refine spec_seq (spec_localStateAbandoned hy _) fun abandoned z hz => ?_
      obtain ⟨saw', hz, habandoned⟩ := hz
      cases abandoned with
      | true => exact spec_install hz rfl fun _ => habandoned rfl
      | false => exact .pure' hz.has
    · rename_i hskip
      -- no second judgement: the state is ahead, or the head's commitment was judged
      refine spec_install hy rfl fun hback => hverdict ?_
      rw [hback, Bool.true_and, Bool.not_eq_true', Bool.not_eq_false, beq_iff_eq] at hskip
      rw [hskip]
      rfl

theorem spec_syncFromGuardianInternal (hhas : Has pid x) :
    Spec S pid (syncFromGuardianInternal S) (fun _ y => Has pid y) x := by
  have hnonce : (Op.getCanonicalNonce : Op A).quiet := ⟨⟨trivial, rfl⟩, fun _ _ => rfl⟩
  refine spec_seq (spec_account hhas) fun answer y hy => spec_seq spec_orFail ?_
  rintro account y' ⟨rfl, rfl⟩
  obtain ⟨saw, hy⟩ := hy account rfl
  refine spec_seq (spec_quiet (.op' hnonce) hy) fun answer z hz => spec_seq spec_orFail ?_
  rintro ⟨nonce, text⟩ z' ⟨-, rfl⟩
  refine spec_seq spec_orFail ?_
  rintro commitment z ⟨-, rfl⟩
  show Spec S pid (if CanonicalHead.isNotAheadOf ⟨nonce, commitment⟩ _ _ = true then _ else _) _ z
  split
  · show Spec S pid (if commitment = S.commitment account then _ else _) _ z
    split
    · exact .pure' hz.has
    · refine spec_seq (spec_localStateAbandoned hz _) fun abandoned v hv => ?_
      obtain ⟨saw', hv, habandoned⟩ := hv
      cases abandoned with
      | true => exact spec_fetchState hv _ fun _ => habandoned rfl
      | false => exact .pure' hv.has
  · refine spec_fetchState hz none ?_
    rintro ⟨⟩

theorem spec_sync (hhas : Has pid x) : Spec S pid (sync S) (fun _ _ => True) x := by
  refine spec_seq (spec_plain makes_syncNetworkState hhas) fun _ y hy => ?_
  refine spec_seq (spec_syncFromGuardianInternal hy) fun updated z hz => ?_
  have hrefresh : Makes (Op.plain (A := A)) refreshCachedAccountFromStore :=
    makes_refreshCachedAccountFromStore
  cases updated with
  | true =>
    have hrest := spec_plain (S := S) (.bind' makes_syncNetworkState fun _ => hrefresh) hz
    exact hrest.mono fun _ _ _ => trivial
  | false => exact (spec_plain hrefresh hz).mono fun _ _ _ => trivial

/-! ## An execution -/

/-- The operation has the client and has sent a transaction. -/
structure HasSent (pid tx expirationBlockNum : Nat) (x : World A × Log A) : Prop where
  has : Has pid x
  sent : x.1.sent tx = some expirationBlockNum

theorem HasSent.left {tx e : Nat} {y : World A × Log A} (h : HasSent pid tx e x)
    (hleft : Left pid x y) : HasSent pid tx e y :=
  ⟨hleft.busy h.has, hleft.grows.sent h.sent⟩

theorem spec_submitProven (expirationBlockNum : Nat) (hhas : Has pid x) :
    Spec S pid (call (.submitProven expirationBlockNum)) (fun r y => ∀ tx height,
      r = some (tx, height) → HasSent pid tx expirationBlockNum y) x := by
  refine spec_call fun y hleft => ?_
  have hy := hleft.busy hhas
  refine ⟨plain_callOk trivial hy, fun ch r w hx => ?_⟩
  cases ch with
  | submitted tx height =>
    rw [exec] at hx
    split at hx
    · cases hx
      rintro tx' height' ⟨⟩
      exact ⟨hy, Function.update_self _ _ _⟩
    · cases hx
  | lost tx =>
    rw [exec] at hx
    split at hx
    · cases hx
      rintro tx' height' ⟨⟩
    · cases hx
  | failed =>
    cases hx
    rintro tx' height' ⟨⟩
  | _ => cases hx

theorem spec_addOrUpdateAccount (account : A) {tx e : Nat} (h : HasSent pid tx e x) :
    Spec S pid (call (.addOrUpdateAccount account)) (fun _ y => HasSent pid tx e y) x := by
  refine spec_call fun y hleft => ?_
  have hy := h.left hleft
  refine ⟨plain_callOk trivial hy.has, fun ch r w hx => ?_⟩
  have heffect := exec_effect hx
  have hbusy := plain_busy (o := .addOrUpdateAccount account) trivial heffect
  exact ⟨hbusy.trans hy.has, heffect.grows.sent hy.sent⟩

theorem spec_recordSubmission {s : UntrackedSubmission}
    (h : HasSent pid s.tx s.expirationBlockNum x) :
    Spec S pid (call (.recordSubmission s)) (fun _ y => Has pid y) x := by
  refine spec_call fun y hleft => ?_
  have hy := h.left hleft
  refine ⟨⟨fun _ => hy.has, ?_, ?_⟩, fun ch r w hx => ?_⟩
  · rintro s' ⟨⟩
    exact hy.sent
  · rintro fresh ⟨⟩
  · have hbusy := (exec_effect hx).busy (by simp) (by simp)
    exact hbusy.trans hy.has

/-- What is recorded was sent. -/
theorem spec_finalizeUntracked (hhas : Has pid x) :
    Spec S pid (finalizeUntracked S) (fun _ _ => True) x := by
  refine spec_seq (spec_plain (.op' trivial) hhas) fun answer y hy => ?_
  refine spec_seq (spec_plain (makes_orFail answer _) hy) fun stored y hy => ?_
  refine spec_seq (spec_plain (makes_orFail stored _) hy) fun _ y hy => ?_
  refine spec_seq (spec_plain (.op' trivial) hy) fun executed y hy => ?_
  refine spec_seq (spec_plain (makes_orFail executed _) hy) fun post y hy => ?_
  obtain ⟨rebuilt, expiration⟩ := post
  refine spec_seq (spec_submitProven expiration hy) fun submitted y hy => spec_seq spec_orFail ?_
  rintro ⟨tx, submissionHeight⟩ y' ⟨rfl, rfl⟩
  refine spec_seq (spec_addOrUpdateAccount rebuilt (hy tx submissionHeight rfl)) fun answer z hz => ?_
  cases answer with
  | stored =>
    refine spec_seq (spec_recordSubmission hz) fun _ v hv => ?_
    have hrest : Makes (Op.plain (A := A)) (do
        let _ ← call .syncState
        call (.setAccount rebuilt)) := .bind' (.op' trivial) fun _ => .op' trivial
    exact (spec_plain hrest hv).mono fun _ _ _ => trivial
  | _ => exact .throw' _ trivial

theorem spec_operation (req : Request) (hhas : Has pid x) :
    Spec S pid (operation S req) (fun _ _ => True) x := by
  cases req with
  | sync => exact spec_sync hhas
  | syncNetworkOnly => exact (spec_plain makes_syncNetworkOnly hhas).mono fun _ _ _ => trivial
  | syncFromGuardian =>
    exact spec_seq (spec_syncFromGuardianInternal hhas) fun _ _ _ => .pure' trivial
  | finalizeUntracked => exact spec_finalizeUntracked hhas
  | finalizeTracked => exact (spec_plain makes_finalizeTracked hhas).mono fun _ _ _ => trivial

theorem free_callOk {o : Op A} (hchanges : o.changes = false) : CallOk S pid x o := by
  refine ⟨?_, ?_, ?_⟩
  · rw [hchanges]
    rintro ⟨⟩
  · rintro s rfl
    cases hchanges
  · rintro fresh rfl
    cases hchanges

theorem wp_handle (S : Sdk A) (pid : Nat) (req : Request) (x : World A × Log A) :
    (exclusive S).wp ((machine A).recorded noteSaw)
      (Guard.any : Guard (Op A) Request (World A) (Choice A) Act).recorded pid (handle S req)
      (fun _ _ => True) x := by
  intro y _ _
  refine ⟨free_callOk rfl, fun ch r z _ hx _ => ?_⟩
  obtain ⟨hexec, hnote⟩ := recorded_exec hx
  have hhas : Has pid z := by
    cases ch with
    | done =>
      change exec pid .begin .done y.1 = some (r, z.1) at hexec
      rw [exec] at hexec
      split at hexec
      · obtain ⟨-, hz⟩ := Prod.mk.inj (Option.some.inj hexec)
        show z.1.busy = some pid
        rw [← hz]
      · cases hexec
    | _ => cases hexec
  show Rely.wp _ _ _ pid ((operation S req).run >>= fun _ => Prog.op Op.finish) _ z
  refine Rely.wp_bind (Rely.wp_mono (spec_operation req hhas) fun _ v _ => ?_)
  intro u _ _
  exact ⟨free_callOk rfl, fun _ _ _ _ _ _ => trivial⟩

end Operation

/-! ## Every run -/

/-- A client that has submitted nothing. -/
def World.start (account stored : Option A) (records : List TransactionRecord) (syncHeight : Nat)
    (blocks : List Block) : World A where
  client := ⟨account, none, stored, records, syncHeight⟩
  blocks := blocks
  sent := fun _ => none
  busy := none

/-- The transaction is in no block from this one on. -/
def NeverAfter (tx first : Nat) (blocks : List Block) : Prop :=
  ∀ n b, first ≤ n → blocks[n]? = some b → tx ∉ b.included

section Runs
variable {S : Sdk A} {w₀ : World A} {c : Conf (Op A) Res (World A) Request} {log : Log A}

theorem recorded_inv (h₀ : Inv S (w₀, Log.empty))
    (h : Recorded (machine A) (handle S) Guard.any noteSaw w₀ Log.empty c log) :
    Inv S (c.world, log) :=
  (Rely.reach (exclusive_kept S) (fun _ _ => trivial) h₀ (fun _ _ _ _ => wp_handle S _ _ _)
    h.product).1

theorem start_inv {account stored : Option A} {records : List TransactionRecord}
    {syncHeight : Nat} {blocks : List Block} (h : syncHeight < blocks.length) :
    Inv S (World.start account stored records syncHeight blocks, Log.empty) := by
  refine ⟨h, ?_, ?_, ?_, ?_⟩
  · rintro n b tx e - - ⟨⟩
  · rintro s ⟨⟩
  · rintro pid v ⟨⟩
  · rintro r ⟨⟩

/-- An expired transaction is in no block after the replacement. -/
theorem expired_neverAfter {x : World A × Log A} (hx : Inv S x) {r : Replacement A}
    (hr : Rightful S x.1 r) {s : UntrackedSubmission} {height : Nat} (hs : .submission s ∈ r.saw)
    (hheight : .syncedTo height ∈ r.saw) (hexpired : s.expirationBlockNum ≤ height) :
    NeverAfter s.tx r.blocks x.1.blocks := by
  intro n b hn hb htx
  have hsent : x.1.sent s.tx = some s.expirationBlockNum := hr.saw _ hs
  have hle := hx.included hb htx hsent
  have hlt := hr.synced height hheight
  omega

/-- In every run, a sync replaces the local account only by a state the node
reported last, or none; and goes back only from an untracked submission that has
expired, and so is in no later block, or that is stale and that GUARDIAN answered to
hold no delta for, with no pending record. -/
theorem sync_replaces_only_abandoned {first stored : Option A} {records : List TransactionRecord}
    {syncHeight : Nat} {blocks : List Block} (hheight : syncHeight < blocks.length)
    (hrun : Recorded (machine A) (handle S) Guard.any noteSaw
      (World.start first stored records syncHeight blocks) Log.empty c log)
    {r : Replacement A} (hr : r ∈ log.replaced) :
    ∃ account, r.before = some account ∧
      (∃ n b earlier, r.saw = .reported n b.state :: earlier ∧ c.world.blocks[n]? = some b ∧
        (b.state = none ∨ b.state = some (S.commitment r.fresh))) ∧
      (S.nonce r.fresh ≤ S.nonce account → ∃ s height records,
        .submission s ∈ r.saw ∧ s.commitment = S.commitment account ∧
        .syncedTo height ∈ r.saw ∧ .records records ∈ r.saw ∧
        pendingRecord (S.accountId account) records = false ∧
        ((s.expirationBlockNum ≤ height ∧ NeverAfter s.tx r.blocks c.world.blocks) ∨
          (s.submissionHeight < height - txDiscardDelta ∧
            ∃ answer, .delta (S.nonce account) answer ∈ r.saw ∧
              holdsNone S (S.commitment account) answer = true))) := by
  have hinv : Inv S (c.world, log) := recorded_inv (start_inv hheight) hrun
  have hrightful := hinv.replaced hr
  obtain ⟨account, hbefore, honChain, habandoned⟩ := hrightful.evidence
  refine ⟨account, hbefore, ?_, fun hle => ?_⟩
  · obtain ⟨n, state, earlier, hsaw, hstate⟩ := honChain
    have hseen : Saw.reported n state ∈ r.saw := hsaw ▸ List.mem_cons_self
    obtain ⟨b, hb, rfl⟩ := hrightful.saw _ hseen
    exact ⟨n, b, earlier, hsaw, hb, hstate⟩
  · obtain ⟨s, height, records, hs, hcommitment, hseen, hrecords, hnone, hdead⟩ := habandoned hle
    refine ⟨s, height, records, hs, hcommitment, hseen, hrecords, hnone, ?_⟩
    obtain hexpired | hstale := hdead
    · exact .inl ⟨hexpired, expired_neverAfter hinv hrightful hs hseen hexpired⟩
    · exact .inr hstale

end Runs

/-! ## A rollback -/

namespace Rollback

/-- An account of which only the nonce and the commitment matter. -/
structure Account where
  nonce : Nat
  commitment : Word
  deriving DecidableEq

def base : Account := ⟨1, .ofIndex 1⟩
def post : Account := ⟨2, .ofIndex 2⟩

def sdk : Sdk Account where
  accountId := fun _ => "0xabc"
  commitment := Account.commitment
  nonce := Account.nonce
  wordFromHex := fun text => if text = Multisig.commitmentHex base.commitment then
    some base.commitment else none
  readAccount := fun _ => some base

def chain : List Block := [⟨some base.commitment, []⟩]

/-- A membership change is submitted, expires with block 1, and a sync goes back. -/
def events : List (Event Request (Choice Account) Act) :=
  [.spawn 0 .finalizeUntracked, .run 0 .done, .run 0 .done, .run 0 (.executed post 1),
    .run 0 (.submitted 7 0), .run 0 .done, .run 0 .done, .run 0 .failed, .run 0 .done, .run 0 .done,
    .env (.block ⟨some base.commitment, []⟩),
    .spawn 1 .sync, .run 1 .done, .run 1 (.synced 1 (some post) []), .run 1 .done,
    .run 1 (.head 1 (Multisig.commitmentHex base.commitment)),
    .run 1 .done, .run 1 .done, .run 1 .done, .run 1 (.node 1),
    .run 1 (.state (some ⟨Multisig.commitmentHex base.commitment, "account"⟩)),
    .run 1 (.node 1), .run 1 (.notes true), .run 1 (.synced 1 none []), .run 1 .done]

def start : World Account := World.start (some base) (some base) [] 0 chain

def final : Option (Conf (Op Account) Res (World Account) Request × Log Account) :=
  runRecorded (machine Account) (handle sdk) Guard.any noteSaw (Conf.start start) Log.empty events

end Rollback

theorem sync_replaces_only_abandoned_expired :
    ∃ c log r s, Recorded (machine Rollback.Account) (handle Rollback.sdk) Guard.any noteSaw
        Rollback.start Log.empty c log ∧ r ∈ log.replaced ∧
      r.before = some Rollback.post ∧ r.fresh = Rollback.base ∧
      s.commitment = Rollback.post.commitment ∧ .submission s ∈ r.saw := by
  have hfinal : Rollback.final.map (fun x => x.2.replaced.map fun r => (r.before, r.fresh)) =
      some [(some Rollback.post, Rollback.base)] := by decide +kernel
  obtain ⟨⟨c, log⟩, hrun, hreplaced⟩ := Option.map_eq_some_iff.mp hfinal
  have hrec := Recorded.init.runRecorded hrun
  obtain ⟨r, hr, hpair⟩ : ∃ r ∈ log.replaced, (r.before, r.fresh) =
      (some Rollback.post, Rollback.base) := by
    have hmem : (some Rollback.post, Rollback.base) ∈
        log.replaced.map fun r => (r.before, r.fresh) := hreplaced ▸ List.mem_singleton_self _
    exact List.mem_map.mp hmem
  obtain ⟨hbefore, hfresh⟩ := Prod.mk.inj hpair
  obtain ⟨account, haccount, -, habandoned⟩ :=
    sync_replaces_only_abandoned (by decide) hrec hr
  obtain rfl := Option.some.inj (hbefore.symm.trans haccount)
  rw [hfresh] at habandoned
  obtain ⟨s, height, records, hs, hcommitment, -⟩ := habandoned (by decide)
  exact ⟨c, log, r, s, hrec, hr, hbefore, hfresh, hcommitment, hs⟩

end Guardian.ClientSync
