import Guardian.Login.Protocol

/- A challenge opens one session. Whatever handlers run beside each other, on
   whatever replicas, and whichever of their calls fail, the sessions opened with a
   key for a principal are no more than the challenges issued with it, and each was
   opened with a signature of the principal over an issued challenge, which had not
   expired when it was claimed.

   A challenge is a token. `issue` makes it, `consume` takes it from the store and
   gives it to one handler, and `insert` spends it; a token whose claim is reported
   as failed is gone. At every moment the sessions opened, the claims held and the
   challenges pending under a key add up to no more than were issued. -/
namespace Guardian.Login

open Interleaving
open Session (SessionSubject StoredSession)

variable {store : ChallengeStore}

/-! ## Tokens -/

@[simp] def Entry.issuedToken : Entry → Option Token
  | .issued realm principal challenge => some ⟨realm, principal, challenge.key⟩
  | _ => none

@[simp] def Entry.consumedToken : Entry → Option Token
  | .consumed realm principal key _ => some ⟨realm, principal, key⟩
  | _ => none

@[simp] def Entry.openedToken : Entry → Option Token
  | .opened realm _ origin => some ⟨realm, origin.principal, origin.key⟩
  | _ => none

def issuedTokens (log : List Entry) : List Token := log.filterMap (·.issuedToken)

def consumedTokens (log : List Entry) : List Token := log.filterMap (·.consumedToken)

def openedTokens (log : List Entry) : List Token := log.filterMap (·.openedToken)

/-- One more entry counts for what it is of. -/
theorem count_filterMap_note (f : Entry → Option Token) (w : World store) (e : Entry) (t : Token) :
    ((w.note e).log.filterMap f).count t = (w.log.filterMap f).count t + (f e).toList.count t := by
  rw [World.note, List.filterMap_append, List.count_append]
  cases hf : f e <;> simp [hf]

@[simp] theorem count_issuedTokens_note (w : World store) (e : Entry) (t : Token) :
    (issuedTokens (w.note e).log).count t =
      (issuedTokens w.log).count t + e.issuedToken.toList.count t := count_filterMap_note _ w e t

@[simp] theorem count_consumedTokens_note (w : World store) (e : Entry) (t : Token) :
    (consumedTokens (w.note e).log).count t =
      (consumedTokens w.log).count t + e.consumedToken.toList.count t :=
  count_filterMap_note _ w e t

@[simp] theorem count_openedTokens_note (w : World store) (e : Entry) (t : Token) :
    (openedTokens (w.note e).log).count t =
      (openedTokens w.log).count t + e.openedToken.toList.count t := count_filterMap_note _ w e t

/-- How many challenges are pending under a token. -/
def pendingCount (challenges : Realm → store.State) (t : Token) : Nat :=
  (store.pending (challenges t.realm) t.principal).countP (fun c => decide (c.key = t.key))

@[simp] theorem World.challenges_note (w : World store) (e : Entry) :
    (w.note e).challenges = w.challenges := rfl

@[simp] theorem World.claims_note (w : World store) (e : Entry) :
    (w.note e).claims = w.claims := rfl

@[simp] theorem World.log_put (w : World store) (realm : Realm) (s : store.State) :
    (w.put realm s).log = w.log := rfl

@[simp] theorem World.claims_put (w : World store) (realm : Realm) (s : store.State) :
    (w.put realm s).claims = w.claims := rfl

theorem World.put_self (w : World store) (realm : Realm) (s : store.State) :
    (w.put realm s).challenges realm = s := Function.update_self _ _ _

theorem World.put_of_ne {w : World store} {realm other : Realm} {s : store.State}
    (h : other ≠ realm) : (w.put realm s).challenges other = w.challenges other :=
  Function.update_of_ne h _ _

/-! ## What is promised -/

/-- The credential is the principal's signature over the challenge. -/
def Origin.Proves (v : Verifier) (origin : Origin) (challenge : StoredChallenge) : Prop :=
  match origin.credential, challenge.payload with
  | .evm nonce signature, .evmChallenge signed =>
    Evm.eqIgnoreAsciiCase signed.nonce.toList nonce.toList = true ∧
      v.recoverSessionAddress signed signature = some origin.principal
  | .operator signature, .operatorDigest digest =>
    v.signatureCommitment signature = some origin.principal ∧ v.verify digest signature = true
  | _, _ => False

/-- The session is the principal's; an operator was on the allowlist. -/
def IsSubject (log : List Entry) (principal : String) : Realm → SessionSubject → Prop
  | .evm, subject => subject = .evm principal
  | .operator, subject => ∃ operatorId, subject = .operator operatorId principal ∧
      .listed principal operatorId ∈ log

/-- A challenge that was issued, and signed by the principal. -/
def Signed (v : Verifier) (log : List Entry) (realm : Realm) (origin : Origin) : Prop :=
  ∃ challenge, .issued realm origin.principal challenge ∈ log ∧ challenge.key = origin.key ∧
    origin.Proves v challenge

/-- A challenge that was issued, and claimed before it expired. -/
def ClaimedInTime (log : List Entry) (t : Token) : Prop :=
  ∃ challenge now, .issued t.realm t.principal challenge ∈ log ∧ challenge.key = t.key ∧
    .consumed t.realm t.principal t.key now ∈ log ∧ now < challenge.expiresAt

/-! ## The invariant -/

structure Inv (v : Verifier) (cfg : DashboardConfig) (w : World store) : Prop where
  spent : ∀ t, (openedTokens w.log).count t + (w.claims.map (·.token)).count t ≤
    (consumedTokens w.log).count t
  claimed : ∀ t, (consumedTokens w.log).count t + pendingCount w.challenges t ≤
    (issuedTokens w.log).count t
  issued : ∀ {realm principal challenge},
    challenge ∈ store.pending (w.challenges realm) principal →
      .issued realm principal challenge ∈ w.log
  inTime : ∀ {realm principal key now}, .consumed realm principal key now ∈ w.log →
    ClaimedInTime w.log ⟨realm, principal, key⟩
  vouched : ∀ {realm session origin}, .opened realm session origin ∈ w.log →
    Signed v w.log realm origin ∧ IsSubject w.log origin.principal realm session.subject
  capped : ∀ realm principal,
    (store.pending (w.challenges realm) principal).length ≤ maxOutstanding cfg realm

section Grows
variable {v : Verifier} {log log' : List Entry} {realm : Realm} {origin : Origin} {t : Token}
  {principal : String} {subject : SessionSubject}

theorem Signed.grow (h : Signed v log realm origin) (hlog : log ⊆ log') :
    Signed v log' realm origin := by
  obtain ⟨challenge, hissued, hkey, hproves⟩ := h
  exact ⟨challenge, hlog hissued, hkey, hproves⟩

theorem ClaimedInTime.grow (h : ClaimedInTime log t) (hlog : log ⊆ log') :
    ClaimedInTime log' t := by
  obtain ⟨challenge, now, hissued, hkey, hconsumed, hlt⟩ := h
  exact ⟨challenge, now, hlog hissued, hkey, hlog hconsumed, hlt⟩

theorem IsSubject.grow (h : IsSubject log principal realm subject) (hlog : log ⊆ log') :
    IsSubject log' principal realm subject := by
  cases realm with
  | evm => exact h
  | operator =>
    obtain ⟨operatorId, hsubject, hlisted⟩ := h
    exact ⟨operatorId, hsubject, hlog hlisted⟩

end Grows

namespace Inv
variable {v : Verifier} {cfg : DashboardConfig} {w w' : World store}

/-- Nothing is added to the stores, and nothing is noted. -/
theorem of_subperm (h : Inv v cfg w) (hlog : w'.log = w.log) (hclaims : w'.claims = w.claims)
    (hpending : ∀ realm principal, (store.pending (w'.challenges realm) principal).Subperm
      (store.pending (w.challenges realm) principal)) : Inv v cfg w' where
  spent := by
    rw [hlog, hclaims]
    exact h.spent
  claimed := fun t => by
    rw [hlog]
    have hcount : pendingCount w'.challenges t ≤ pendingCount w.challenges t :=
      (hpending _ _).countP_le _
    have hold := h.claimed t
    omega
  issued := fun hmem => by
    rw [hlog]
    exact h.issued ((hpending _ _).subset hmem)
  inTime := fun hmem => by
    rw [hlog] at hmem ⊢
    exact h.inTime hmem
  vouched := fun hmem => by
    rw [hlog] at hmem ⊢
    exact h.vouched hmem
  capped := fun realm principal => (hpending realm principal).length_le.trans (h.capped _ _)

/-- One realm's challenges change, and none is added. -/
theorem put (h : Inv v cfg w) (realm : Realm) {s : store.State}
    (hs : ∀ principal, (store.pending s principal).Subperm
      (store.pending (w.challenges realm) principal)) : Inv v cfg (w.put realm s) := by
  refine h.of_subperm rfl rfl fun other principal => ?_
  by_cases hother : other = realm
  · subst hother
    rw [World.put_self]
    exact hs principal
  · rw [World.put_of_ne hother]

/-- One entry more: what was promised of the others is so still. -/
theorem noted {e : Entry} (h : Inv v cfg w) (hlog : w'.log = w.log ++ [e])
    (hspent : ∀ t, (openedTokens w'.log).count t + (w'.claims.map (·.token)).count t ≤
      (consumedTokens w'.log).count t)
    (hclaimed : ∀ t, (consumedTokens w'.log).count t + pendingCount w'.challenges t ≤
      (issuedTokens w'.log).count t)
    (hissued : ∀ {realm principal challenge},
      challenge ∈ store.pending (w'.challenges realm) principal →
        .issued realm principal challenge ∈ w'.log)
    (hinTime : ∀ {realm principal key now}, e = .consumed realm principal key now →
      ClaimedInTime w'.log ⟨realm, principal, key⟩)
    (hvouched : ∀ {realm session origin}, e = .opened realm session origin →
      Signed v w.log realm origin ∧ IsSubject w.log origin.principal realm session.subject)
    (hcapped : ∀ realm principal,
      (store.pending (w'.challenges realm) principal).length ≤ maxOutstanding cfg realm) :
    Inv v cfg w' := by
  have hgrow : w.log ⊆ w'.log := hlog ▸ List.subset_append_left _ _
  refine ⟨hspent, hclaimed, hissued, fun hmem => ?_, fun hmem => ?_, hcapped⟩
  · rw [hlog] at hmem
    obtain hold | hnew := List.mem_append.mp hmem
    · exact (h.inTime hold).grow hgrow
    · exact hinTime (List.mem_singleton.mp hnew).symm
  · rw [hlog] at hmem
    obtain hold | hnew := List.mem_append.mp hmem
    · obtain ⟨hsigned, hsubject⟩ := h.vouched hold
      exact ⟨hsigned.grow hgrow, hsubject.grow hgrow⟩
    · obtain ⟨hsigned, hsubject⟩ := hvouched (List.mem_singleton.mp hnew).symm
      exact ⟨hsigned.grow hgrow, hsubject.grow hgrow⟩

theorem listed (h : Inv v cfg w) (commitment operatorId : String) :
    Inv v cfg (w.note (.listed commitment operatorId)) := by
  refine h.noted rfl (fun t => ?_) (fun t => ?_) (fun hmem => ?_) nofun nofun h.capped
  · simpa using h.spent t
  · simpa using h.claimed t
  · exact List.mem_append_left _ (h.issued hmem)

/-- What is pending after a challenge was issued. -/
theorem pending_issue (w : World store) (realm : Realm) (principal : String)
    (challenge : StoredChallenge) (max : Nat) (now : Int) (r : Realm) (p : String) :
    (store.pending ((w.issue realm principal challenge max now).challenges r) p).Subperm
      ((if r = realm ∧ p = principal then
        [store.kept principal challenge (store.clock now w.clock)] else []) ++
          store.pending (w.challenges r) p) := by
  rw [World.issue, World.challenges_note]
  by_cases hr : r = realm
  · subst hr
    rw [World.put_self]
    by_cases hp : p = principal
    · subst hp
      rw [if_pos ⟨rfl, rfl⟩]
      exact store.issue_self
    · rw [if_neg (fun hboth => hp hboth.2)]
      exact store.issue_other hp
  · rw [World.put_of_ne hr, if_neg (fun hboth => hr hboth.1)]
    exact List.Subperm.refl _

/-- A new challenge counts for its token only. -/
theorem countP_new_le (t : Token) (realm : Realm) (principal : String) (c : StoredChallenge) :
    (if t.realm = realm ∧ t.principal = principal then [c] else []).countP
      (fun c => decide (c.key = t.key)) ≤ [(⟨realm, principal, c.key⟩ : Token)].count t := by
  split
  · next hboth =>
    obtain ⟨rfl, rfl⟩ := hboth
    by_cases hkey : c.key = t.key
    · rw [hkey, List.count_singleton_self]
      exact List.countP_le_length
    · simp [hkey]
  · exact Nat.zero_le _

/-- A challenge is issued: one token more, and at most one more challenge pending. -/
theorem issue (h : Inv v cfg w) (realm : Realm) (principal : String)
    (challenge : StoredChallenge) (now : Int) :
    Inv v cfg (w.issue realm principal challenge (maxOutstanding cfg realm) now) := by
  have hpending := pending_issue w realm principal challenge (maxOutstanding cfg realm) now
  refine h.noted rfl (fun t => ?_) (fun t => ?_) (fun {r p c} hmem => ?_) nofun nofun
    fun r p => ?_
  · simpa [World.issue] using h.spent t
  · have hcount := (hpending t.realm t.principal).countP_le (fun c => decide (c.key = t.key))
    have hnew := countP_new_le t realm principal
      (store.kept principal challenge (store.clock now w.clock))
    have hclaimed := h.claimed t
    rw [List.countP_append] at hcount
    rw [pendingCount] at hclaimed ⊢
    simp only [World.issue, count_consumedTokens_note, count_issuedTokens_note, Entry.issuedToken,
      Entry.consumedToken, Option.toList, List.count_nil, World.log_put] at hcount ⊢
    omega
  · obtain hnew | hold := List.mem_append.mp ((hpending r p).subset hmem)
    · split at hnew
      · next hboth =>
        obtain ⟨rfl, rfl⟩ := hboth
        rw [List.mem_singleton.mp hnew]
        exact List.mem_append_right _ (List.mem_singleton_self _)
      · cases hnew
    · exact List.mem_append_left _ (h.issued hold)
  · by_cases hboth : r = realm ∧ p = principal
    · obtain ⟨rfl, rfl⟩ := hboth
      rw [World.issue, World.challenges_note, World.put_self]
      exact store.issue_length
    · have hle := (hpending r p).length_le
      rw [if_neg hboth, List.nil_append] at hle
      exact hle.trans (h.capped r p)

/-- A claim that succeeds takes a pending challenge. -/
theorem exists_of_consume {realm : Realm} {principal key : String} {now : Int}
    (hclaims : (w.consume realm principal key now).1 = true) :
    ∃ c s, c.key = key ∧ store.clock now w.clock < c.expiresAt ∧
      (c :: store.pending s principal).Subperm (store.pending (w.challenges realm) principal) ∧
      (∀ other, (store.pending s other).Subperm (store.pending (w.challenges realm) other)) ∧
      (w.consume realm principal key now).2 = (w.put realm s).note
        (.consumed realm principal key (store.clock now w.clock)) := by
  have hclaims' : (store.consume principal key (store.clock now w.clock)
      (w.challenges realm)).1 = true := hclaims
  obtain ⟨c, hkey, hexpires, htakes⟩ := store.consume_takes hclaims'
  exact ⟨c, _, hkey, hexpires, htakes, fun _ => store.consume_le, if_pos hclaims'⟩

/-- One that fails adds no challenge, and notes nothing. -/
theorem put_of_consume {realm : Realm} {principal key : String} {now : Int}
    (hclaims : (w.consume realm principal key now).1 = false) :
    ∃ s, (∀ other, (store.pending s other).Subperm (store.pending (w.challenges realm) other)) ∧
      (w.consume realm principal key now).2 = w.put realm s := by
  have hclaims' : (store.consume principal key (store.clock now w.clock)
      (w.challenges realm)).1 = false := hclaims
  exact ⟨_, fun _ => store.consume_le, if_neg (by rw [hclaims']; exact Bool.false_ne_true)⟩

/-- A handler claims a challenge and holds the token. -/
theorem consume (h : Inv v cfg w) (pid : Nat) {realm : Realm} {principal key : String} {now : Int}
    (hclaims : (w.consume realm principal key now).1 = true) :
    Inv v cfg ((w.consume realm principal key now).2.hold ⟨pid, realm, principal, key⟩) := by
  obtain ⟨c, s, hkey, hexpires, htakes, hle, heq⟩ := exists_of_consume hclaims
  have hput : Inv v cfg (w.put realm s) := h.put realm hle
  rw [heq]
  have hissued : .issued realm principal c ∈ w.log :=
    h.issued (htakes.subset List.mem_cons_self)
  refine hput.noted rfl (fun t => ?_) (fun t => ?_) (fun hmem => ?_) ?_ nofun hput.capped
  · have hspent := h.spent t
    simp only [World.hold, count_openedTokens_note, count_consumedTokens_note, Entry.openedToken,
      Entry.consumedToken, Option.toList, List.map_cons, List.count_cons, List.count_nil,
      World.claims_note, World.log_put, World.claims_put]
    omega
  · simp only [World.hold, count_consumedTokens_note, count_issuedTokens_note, Entry.issuedToken,
      Entry.consumedToken, Option.toList, List.count_nil, World.challenges_note, World.log_put]
    by_cases ht : t = ⟨realm, principal, key⟩
    · subst ht
      have hclaimed := h.claimed ⟨realm, principal, key⟩
      have hcount := htakes.countP_le (fun c => decide (c.key = key))
      rw [List.countP_cons_of_pos (by simpa using hkey)] at hcount
      rw [pendingCount] at hclaimed ⊢
      rw [List.count_singleton_self, World.put_self]
      dsimp only at hclaimed ⊢
      omega
    · have hclaimed := hput.claimed t
      have hnone : [(⟨realm, principal, key⟩ : Token)].count t = 0 :=
        List.count_eq_zero.mpr (by simpa using ht)
      rw [hnone]
      simpa using hclaimed
  · exact List.mem_append_left _ (hput.issued hmem)
  · intro _ _ _ _ hconsumed
    cases hconsumed
    exact ⟨c, _, List.mem_append_left _ hissued, hkey,
      List.mem_append_right _ (List.mem_singleton_self _), hexpires⟩

/-- A token may be lost. -/
theorem release {claim : Claim} (h : Inv v cfg (w.hold claim)) : Inv v cfg w where
  spent := fun t => by
    have hspent := h.spent t
    simp only [World.hold, List.map_cons, List.count_cons] at hspent
    omega
  claimed := h.claimed
  issued := h.issued
  inTime := h.inTime
  vouched := h.vouched
  capped := h.capped

/-- A handler spends a token it holds. -/
theorem insert (h : Inv v cfg w) {pid : Nat} {realm : Realm} (session : StoredSession)
    {origin : Origin} (hheld : ⟨pid, realm, origin.principal, origin.key⟩ ∈ w.claims)
    (hsigned : Signed v w.log realm origin)
    (hsubject : IsSubject w.log origin.principal realm session.subject) :
    Inv v cfg (w.insert pid realm session origin) := by
  have hperm := (List.perm_cons_erase hheld).map (·.token)
  refine h.noted rfl (fun t => ?_) (fun t => ?_) (fun hmem => ?_) nofun ?_ h.capped
  · have hspent := h.spent t
    rw [hperm.count_eq t] at hspent
    simp only [World.insert, count_openedTokens_note, count_consumedTokens_note,
      Entry.openedToken, Entry.consumedToken, Option.toList, List.map_cons, List.count_cons,
      List.count_nil, World.claims_note] at hspent ⊢
    omega
  · simpa [World.insert] using h.claimed t
  · exact List.mem_append_left _ (h.issued hmem)
  · intro _ _ _ heq
    cases heq
    exact ⟨hsigned, hsubject⟩

end Inv

/-! ## Every call keeps it -/

/-- Handlers only add to the log, and leave each other's claims alone. -/
def keeping (store : ChallengeStore) (v : Verifier) (cfg : DashboardConfig) :
    Rely Op (World store) where
  inv := Inv v cfg
  rely := fun pid w w' => w.log <+: w'.log ∧ ∀ t, ⟨pid, t⟩ ∈ w.claims → ⟨pid, t⟩ ∈ w'.claims
  ok := fun pid op w =>
    match op with
    | .issue realm _ _ max _ => max = maxOutstanding cfg realm
    | .insert realm session origin => ⟨pid, realm, origin.principal, origin.key⟩ ∈ w.claims ∧
        Signed v w.log realm origin ∧ IsSubject w.log origin.principal realm session.subject
    | _ => True
  refl := fun _ => ⟨List.prefix_refl _, fun _ h => h⟩
  trans := fun h h' => ⟨h.1.trans h'.1, fun t ht => h'.2 t (h.2 t ht)⟩

section Calls
variable {v : Verifier} {cfg : DashboardConfig} {pid : Nat} {w w' : World store}

/-- A call keeps the invariant, adds to the log, and leaves the claims of others. -/
theorem exec_kept {op : Op} {ch : Choice} {r : Res op} (hok : (keeping store v cfg).ok pid op w)
    (hx : exec pid op ch w = some (r, w')) (hi : Inv v cfg w) :
    Inv v cfg w' ∧ w.log <+: w'.log ∧
      ∀ q t, q ≠ pid → ⟨q, t⟩ ∈ w.claims → ⟨q, t⟩ ∈ w'.claims := by
  have hsame : Inv v cfg w ∧ w.log <+: w.log ∧
      ∀ q t, q ≠ pid → ⟨q, t⟩ ∈ w.claims → ⟨q, t⟩ ∈ w.claims :=
    ⟨hi, List.prefix_refl _, fun _ _ _ h => h⟩
  cases op with
  | lookup commitment =>
    cases ch with
    | done =>
      simp only [exec, World.lookup] at hx
      split at hx
      · cases hx; exact hsame
      · cases hx; exact ⟨hi.listed _ _, List.prefix_append _ _, fun _ _ _ h => h⟩
    | _ => cases hx
  | issue realm principal challenge max now =>
    have hissue : Inv v cfg (w.issue realm principal challenge max now) := by
      have hmax : max = maxOutstanding cfg realm := hok
      rw [hmax]
      exact hi.issue realm principal challenge now
    cases ch with
    | done => cases hx; exact ⟨hissue, List.prefix_append _ _, fun _ _ _ h => h⟩
    | lost => cases hx; exact ⟨hissue, List.prefix_append _ _, fun _ _ _ h => h⟩
    | failed => cases hx; exact hsame
    | _ => cases hx
  | consume realm principal key now =>
    cases ch with
    | done =>
      simp only [exec] at hx
      split at hx
      · next w₁ heq =>
        cases hx
        have hclaims : (w.consume realm principal key now).1 = true := by rw [heq]
        obtain ⟨-, s, -, -, -, -, hw₁⟩ := Inv.exists_of_consume hclaims
        have hinv := hi.consume pid hclaims
        rw [heq] at hinv hw₁
        dsimp only at hinv hw₁
        subst hw₁
        exact ⟨hinv, List.prefix_append _ _, fun _ _ _ h => List.mem_cons_of_mem _ h⟩
      · next w₁ heq =>
        cases hx
        have hclaims : (w.consume realm principal key now).1 = false := by rw [heq]
        obtain ⟨s, hle, hw₁⟩ := Inv.put_of_consume hclaims
        rw [heq] at hw₁
        dsimp only at hw₁
        subst hw₁
        exact ⟨hi.put realm hle, List.prefix_refl _, fun _ _ _ h => h⟩
    | lost =>
      cases hx
      cases hclaims : (w.consume realm principal key now).1 with
      | true =>
        obtain ⟨-, s, -, -, -, -, hw₁⟩ := Inv.exists_of_consume hclaims
        have hinv := (hi.consume pid hclaims).release
        rw [hw₁] at hinv ⊢
        exact ⟨hinv, List.prefix_append _ _, fun _ _ _ h => h⟩
      | false =>
        obtain ⟨s, hle, hw₁⟩ := Inv.put_of_consume hclaims
        rw [hw₁]
        exact ⟨hi.put realm hle, List.prefix_refl _, fun _ _ _ h => h⟩
    | failed => cases hx; exact hsame
    | _ => cases hx
  | insert realm session origin =>
    obtain ⟨hheld, hsigned, hsubject⟩ := hok
    have hinsert := hi.insert session hheld hsigned hsubject
    have hothers : ∀ q t, q ≠ pid → ⟨q, t⟩ ∈ w.claims →
        ⟨q, t⟩ ∈ (w.insert pid realm session origin).claims := fun q t hq ht =>
      (List.mem_erase_of_ne (fun heq => hq (congrArg Claim.pid heq))).mpr ht
    cases ch with
    | done => cases hx; exact ⟨hinsert, List.prefix_append _ _, hothers⟩
    | lost => cases hx; exact ⟨hinsert, List.prefix_append _ _, hothers⟩
    | failed => cases hx; exact hsame
    | _ => cases hx
  | sweepExpired realm now =>
    cases ch with
    | done =>
      cases hx
      exact ⟨hi.put realm fun _ => store.sweep_le, List.prefix_refl _, fun _ _ _ h => h⟩
    | failed => cases hx; exact hsame
    | _ => cases hx
  | _ => cases ch <;> cases hx <;> exact hsame

theorem keeping_kept : (keeping store v cfg).Kept (machine store)
    (Guard.any : Guard Op Request (World store) Choice Act) (fun _ _ _ => True) where
  call := by
    intro pid op ch w r w' _ hok _ hx hi
    obtain ⟨hinv, hlog, hothers⟩ := exec_kept hok hx hi
    exact ⟨hinv, fun {q} hq => ⟨hlog, fun t => hothers q t hq⟩⟩
  act := by
    intro a w w' _ hx hi
    cases a with
    | tick duration =>
      cases hx
      exact ⟨hi.of_subperm rfl rfl fun _ _ => List.Subperm.refl _, List.prefix_refl _,
        fun _ h => h⟩
    | reload allowlist =>
      cases hx
      exact ⟨hi.of_subperm rfl rfl fun _ _ => List.Subperm.refl _, List.prefix_refl _,
        fun _ h => h⟩

end Calls

/-! ## The handlers -/

section Handlers
variable {v : Verifier} {cfg : DashboardConfig} {pid : Nat} {w : World store}

abbrev Wp {α : Type} (v : Verifier) (cfg : DashboardConfig) (pid : Nat) (p : LoginProg α)
    (Q : α → World store → Prop) (w : World store) : Prop :=
  (keeping store v cfg).wp (machine store)
    (Guard.any : Guard Op Request (World store) Choice Act) pid p Q w

/-- Calls that need nothing to be known. -/
def Op.isFree : Op → Bool
  | .issue _ _ _ _ _ => false
  | .insert _ _ _ => false
  | _ => true

/-- A call that needs nothing; what is known then is what it leads to. -/
theorem wp_free {β : Type} {o : Op} {k : Res o → LoginProg β} {Q : β → World store → Prop}
    (ho : o.isFree = true)
    (hk : ∀ {ch r w₁ w₂}, (keeping store v cfg).rely pid w w₁ → Inv v cfg w₁ →
      exec pid o ch w₁ = some (r, w₂) → w₁.log <+: w₂.log → Wp v cfg pid (k r) Q w₂) :
    Wp v cfg pid (call o >>= k) Q w := by
  intro w₁ hr hi
  have hok : (keeping store v cfg).ok pid o w₁ := by
    cases o with
    | issue => cases ho
    | insert => cases ho
    | _ => trivial
  refine ⟨hok, fun ch r w₂ _ hx _ => ?_⟩
  exact hk hr hi hx (exec_kept hok hx hi).2.1

/-- A session is opened with a claimed challenge that the caller signed. -/
theorem wp_openSession {realm : Realm} {origin : Origin} {subject : SessionSubject} {now ttl : Int}
    (hsigned : Signed v w.log realm origin)
    (hsubject : IsSubject w.log origin.principal realm subject) :
    Wp v cfg pid (openSession realm origin subject now ttl) (fun _ _ => True) w := by
  refine wp_free rfl fun {ch claimed w₁ w₂} hr hi hx hlog => ?_
  have hgrow : w.log <+: w₂.log := hr.1.trans hlog
  match claimed, hx with
  | some true, hx =>
    have hheld : ⟨pid, realm, origin.principal, origin.key⟩ ∈ w₂.claims := by
      cases ch with
      | done =>
        simp only [exec] at hx
        split at hx
        · cases hx; exact List.mem_cons_self
        · cases hx
      | _ => cases hx
    refine wp_free rfl fun {ch _ w₃ w₄} hr' _ hx' hlog' => ?_
    have hsame : w₄ = w₃ := by cases ch <;> cases hx'; rfl
    subst hsame
    intro w₅ hr₅ hi₅
    have hgrow₅ : w.log ⊆ w₅.log := (hgrow.trans (hr'.1.trans hr₅.1)).subset
    refine ⟨⟨hr₅.2 _ (hr'.2 _ hheld), hsigned.grow hgrow₅, hsubject.grow hgrow₅⟩, ?_⟩
    intro _ inserted _ _ _ _
    cases inserted <;> trivial
  | some false, _ => trivial
  | none, _ => trivial

/-- What a handler reads was issued. -/
theorem issued_of_activeFor {realm : Realm} {principal : String} {now : Int} {ch : Choice}
    {active : List StoredChallenge} {w' : World store} (hi : Inv v cfg w)
    (hx : exec pid (.activeFor realm principal now) ch w = some (some active, w')) :
    w' = w ∧ ∀ c ∈ active, .issued realm principal c ∈ w.log := by
  cases ch with
  | done =>
    cases hx
    exact ⟨rfl, fun c hc => hi.issued (store.mem_activeFor hc)⟩
  | _ => cases hx

theorem matchNonce_eq_some {nonce : String} {active : List StoredChallenge}
    {stored : StoredChallenge} {challenge : EvmChallenge}
    (h : matchNonce nonce active = some (stored, challenge)) :
    stored ∈ active ∧ stored.payload = .evmChallenge challenge ∧
      Evm.eqIgnoreAsciiCase challenge.nonce.toList nonce.toList = true := by
  obtain ⟨found, hmem, hfound⟩ := List.exists_of_findSome?_eq_some h
  split at hfound
  · next signed hpayload =>
    split at hfound
    · next hnonce =>
      cases hfound
      exact ⟨hmem, hpayload, hnonce⟩
    · cases hfound
  · cases hfound

theorem wp_verifyEvm {address nonce signature : String} :
    Wp v cfg pid (verifyEvm v address nonce signature) (fun _ _ => True) w := by
  refine wp_free rfl fun {_ now _ w₁} _ _ _ _ => ?_
  split
  · next address' signature' =>
    refine wp_free rfl fun {ch read w₂ w₃} _ hi hx _ => ?_
    cases read with
    | none => trivial
    | some active =>
      obtain ⟨rfl, hissued⟩ := issued_of_activeFor hi hx
      dsimp only
      split
      · trivial
      · next stored challenge hmatch =>
        obtain ⟨hmem, hpayload, hnonce⟩ := matchNonce_eq_some hmatch
        split
        · next hrecover =>
          refine wp_openSession ⟨stored, hissued stored hmem, rfl, ?_⟩ rfl
          simp only [Origin.Proves, hpayload]
          exact ⟨hnonce, hrecover⟩
        · trivial
  · trivial

theorem wp_verifyAdmitted {commitment signature : String} {now : Int} :
    Wp v cfg pid (verifyAdmitted v cfg commitment signature now) (fun _ _ => True) w := by
  unfold verifyAdmitted
  split
  · trivial
  · next principal _ =>
    refine wp_free rfl fun {ch found w₁ w₂} _ _ hx _ => ?_
    cases found with
    | none => trivial
    | some operatorId =>
      have hlisted : .listed principal operatorId ∈ w₂.log := by
        cases ch with
        | done =>
          simp only [exec, World.lookup] at hx
          split at hx
          · cases hx
          · cases hx
            exact List.mem_append_right _ (List.mem_singleton_self _)
        | _ => cases hx
      dsimp only
      split
      · next hcommitment =>
        refine wp_free rfl fun {ch read w₃ w₄} hr hi hx _ => ?_
        cases read with
        | none => trivial
        | some active =>
          obtain ⟨rfl, hissued⟩ := issued_of_activeFor hi hx
          dsimp only
          split
          · trivial
          · next stored hfind =>
            have hmem := List.mem_of_find?_eq_some hfind
            have hverify := List.find?_some hfind
            refine wp_openSession ⟨stored, hissued stored hmem, rfl, ?_⟩
              ⟨operatorId, rfl, hr.1.subset hlisted⟩
            cases hpayload : stored.payload with
            | operatorDigest digest =>
              simp only [isSignatureOf, hpayload] at hverify
              simp only [Origin.Proves, hpayload]
              exact ⟨hcommitment, hverify⟩
            | evmChallenge => simp [isSignatureOf, hpayload] at hverify
      · trivial

theorem wp_verifyOperator {commitment signature : String} :
    Wp v cfg pid (verifyOperator v cfg commitment signature) (fun _ _ => True) w := by
  refine wp_free rfl fun {_ now _ w₁} _ _ _ _ => ?_
  refine wp_free rfl fun {_ refreshed _ w₂} _ _ _ _ => ?_
  cases refreshed with
  | false => trivial
  | true =>
    refine wp_free rfl fun {_ admitted _ w₃} _ _ _ _ => ?_
    cases admitted with
    | false => trivial
    | true => exact wp_verifyAdmitted

/-- A challenge is issued within the realm's limit. -/
theorem wp_issue {α : Type} (realm : Realm) {principal : String} {challenge : StoredChallenge}
    {now : Int} {k : Bool → LoginProg α}
    (hk : ∀ issued (w' : World store), Wp v cfg pid (k issued) (fun _ _ => True) w') :
    Wp v cfg pid (call (.issue realm principal challenge (maxOutstanding cfg realm) now) >>= k)
      (fun _ _ => True) w :=
  fun _ _ _ => ⟨rfl, fun _ _ _ _ _ _ => hk _ _⟩

theorem wp_issueEvmChallenge {address : String} :
    Wp v cfg pid (issueEvmChallenge address) (fun _ _ => True) w := by
  refine wp_free rfl fun {_ now _ w₁} _ _ _ _ => ?_
  split
  · trivial
  · refine wp_free rfl fun {_ nonce _ w₂} _ _ _ _ => ?_
    refine wp_issue .evm fun issued _ => ?_
    cases issued <;> trivial

theorem wp_issueOperatorChallenge {commitment : String} :
    Wp v cfg pid (issueOperatorChallenge v cfg commitment) (fun _ _ => True) w := by
  refine wp_free rfl fun {_ now _ w₁} _ _ _ _ => ?_
  refine wp_free rfl fun {_ refreshed _ w₂} _ _ _ _ => ?_
  cases refreshed with
  | false => trivial
  | true =>
    refine wp_free rfl fun {_ admitted _ w₃} _ _ _ _ => ?_
    cases admitted with
    | false => trivial
    | true =>
      refine wp_free rfl fun {_ nonce _ w₄} _ _ _ _ => ?_
      dsimp only
      split
      · trivial
      · refine wp_free rfl fun {_ found _ w₅} _ _ _ _ => ?_
        cases found with
        | none => trivial
        | some operatorId =>
          refine wp_issue .operator fun issued _ => ?_
          cases issued <;> trivial

theorem wp_handle (request : Request) :
    Wp v cfg pid (handle v cfg request) (fun _ _ => True) w := by
  cases request with
  | evmChallenge address =>
    exact Rely.wp_bind (Rely.wp_mono wp_issueEvmChallenge fun _ _ _ => trivial)
  | evmVerify address nonce signature =>
    exact Rely.wp_bind (Rely.wp_mono wp_verifyEvm fun _ _ _ => trivial)
  | operatorChallenge commitment =>
    exact Rely.wp_bind (Rely.wp_mono wp_issueOperatorChallenge fun _ _ _ => trivial)
  | operatorVerify commitment signature =>
    exact Rely.wp_bind (Rely.wp_mono wp_verifyOperator fun _ _ _ => trivial)
  | sweep realm =>
    refine wp_free rfl fun {_ now _ w₁} _ _ _ _ => ?_
    exact wp_free rfl fun _ _ _ _ => trivial

end Handlers

/-! ## Every run -/

variable {v : Verifier} {cfg : DashboardConfig} {allowlist : String → Option String} {clock : Int}
  {c : Conf Op Res (World store) Request}

theorem inv_of_reachable (h : Reachable store v cfg allowlist clock c) : Inv v cfg c.world := by
  have h0 : Inv v cfg (World.start allowlist clock : World store) := by
    have hempty : ∀ principal, store.pending store.empty principal = [] := store.pending_empty
    refine ⟨fun t => Nat.le_refl _, fun t => ?_, fun hmem => ?_, nofun, nofun, fun realm p => ?_⟩
    · simp [World.start, pendingCount, hempty, consumedTokens]
    · simp [World.start, hempty] at hmem
    · simp [World.start, hempty]
  exact (Rely.reach keeping_kept (fun _ _ => trivial) h0
    (fun {_ _ request} _ _ _ _ => wp_handle request) h).1

/-- A session was opened with a challenge claimed in time. -/
theorem Inv.claimedInTime {w : World store} (h : Inv v cfg w) {realm : Realm}
    {session : StoredSession} {origin : Origin} (hopened : .opened realm session origin ∈ w.log) :
    ClaimedInTime w.log ⟨realm, origin.principal, origin.key⟩ := by
  have htoken : ⟨realm, origin.principal, origin.key⟩ ∈ openedTokens w.log :=
    List.mem_filterMap.mpr ⟨_, hopened, rfl⟩
  have hspent := h.spent ⟨realm, origin.principal, origin.key⟩
  have hconsumed : ⟨realm, origin.principal, origin.key⟩ ∈ consumedTokens w.log := by
    have hpos := List.count_pos_iff.mpr htoken
    exact List.count_pos_iff.mp (by omega)
  obtain ⟨e, he, htoken⟩ := List.mem_filterMap.mp hconsumed
  cases e with
  | consumed =>
    cases htoken
    exact h.inTime he
  | _ => cases htoken

/-- In every run of any number of handlers, the sessions opened match distinct issued
challenges of their realm, principal and key, and each was opened with the principal's
signature over a challenge issued under that key, and with the claim, in time, of one
issued under it: a key drawn twice does not tell the two apart. -/
theorem login_opens_one_session (h : Reachable store v cfg allowlist clock c) :
    (openedTokens c.world.log).Subperm (issuedTokens c.world.log) ∧
      ∀ {realm session origin}, .opened realm session origin ∈ c.world.log →
        Signed v c.world.log realm origin ∧
        ClaimedInTime c.world.log ⟨realm, origin.principal, origin.key⟩ ∧
        IsSubject c.world.log origin.principal realm session.subject := by
  have hinv := inv_of_reachable h
  constructor
  · refine List.subperm_ext_iff.mpr fun t _ => ?_
    have hspent := hinv.spent t
    have hclaimed := hinv.claimed t
    omega
  · intro realm session origin hopened
    obtain ⟨hsigned, hsubject⟩ := hinv.vouched hopened
    exact ⟨hsigned, hinv.claimedInTime hopened, hsubject⟩

namespace Demo

/-- Alice's only signature is of the digest `n`. -/
def verifier : Verifier where
  recoverSessionAddress := fun _ _ => none
  normalizeCommitment := some
  signingDigest := fun _ _ nonce _ => some nonce
  signatureCommitment := fun signature => if signature = "s" then some "c" else none
  verify := fun digest signature => decide (digest = "n" ∧ signature = "s")

def config : DashboardConfig := ⟨"guardian", 300 * 10 ^ 9, 3600 * 10 ^ 9, 2⟩

def operators (commitment : String) : Option String :=
  if commitment = "c" then some "alice" else none

def scan : Scan := ⟨id, fun _ => .refl _⟩

/-- Alice sends her signature to two replicas; both read the challenge before either
claims it. -/
def replayed : List (Interleaving.Event Request Choice Act) :=
  [.spawn 0 (.operatorChallenge "c")] ++
    [.now 0, .flag true, .flag true, .random "n", .done, .done].map (.run 0) ++
    [.spawn 1 (.operatorVerify "c" "s"), .spawn 2 (.operatorVerify "c" "s")] ++
    [.now 0, .flag true, .flag true, .done, .done].map (.run 1) ++
    [.now 0, .flag true, .flag true, .done, .done].map (.run 2) ++
    [.run 1 .done, .run 2 .done, .run 1 (.random "t"), .run 1 .done]

end Demo

theorem login_opens_one_session_replayed :
    ∃ c, Reachable (Postgres.store Demo.scan) Demo.verifier Demo.config Demo.operators 0 c ∧
      openedTokens c.world.log = [⟨.operator, "c", "n"⟩] ∧
      (openedTokens c.world.log).Subperm (issuedTokens c.world.log) := by
  have htest : (runEvents (machine (Postgres.store Demo.scan)) (handle Demo.verifier Demo.config)
      Guard.any (.start (World.start Demo.operators 0)) Demo.replayed).any (fun c =>
        decide (openedTokens c.world.log = [⟨.operator, "c", "n"⟩])) = true := by
    decide +kernel
  obtain ⟨c, hrun, htest⟩ := (Option.any_eq_true ..).mp htest
  have hr : Reachable (Postgres.store Demo.scan) Demo.verifier Demo.config Demo.operators 0 c :=
    Reach.init.runEvents hrun
  exact ⟨c, hr, of_decide_eq_true htest, (login_opens_one_session hr).1⟩

/-- In every run, no principal has more challenges pending than its realm allows. -/
theorem pending_challenges_capped (h : Reachable store v cfg allowlist clock c) (realm : Realm)
    (principal : String) :
    (store.pending (c.world.challenges realm) principal).length ≤ maxOutstanding cfg realm :=
  (inv_of_reachable h).capped realm principal

/-- Alice asks for a third challenge, where two may be pending. -/
def Demo.asked : List (Interleaving.Event Request Choice Act) :=
  (["n", "m", "k"].zipIdx).flatMap fun (nonce, pid) =>
    [.spawn pid (.operatorChallenge "c"), .env (.tick 1)] ++
      [.now pid, .flag true, .flag true, .random nonce, .done, .done].map (.run pid)

theorem pending_challenges_capped_third :
    ∃ c, Reachable (Postgres.store Demo.scan) Demo.verifier Demo.config Demo.operators 0 c ∧
      (issuedTokens c.world.log).length = 3 ∧
      ((Postgres.store Demo.scan).pending (c.world.challenges .operator) "c").length ≤ 2 := by
  have htest : (runEvents (machine (Postgres.store Demo.scan)) (handle Demo.verifier Demo.config)
      Guard.any (.start (World.start Demo.operators 0)) Demo.asked).any (fun c =>
        decide ((issuedTokens c.world.log).length = 3)) = true := by
    decide +kernel
  obtain ⟨c, hrun, htest⟩ := (Option.any_eq_true ..).mp htest
  have hr : Reachable (Postgres.store Demo.scan) Demo.verifier Demo.config Demo.operators 0 c :=
    Reach.init.runEvents hrun
  exact ⟨c, hr, of_decide_eq_true htest, pending_challenges_capped hr .operator "c"⟩

end Guardian.Login
