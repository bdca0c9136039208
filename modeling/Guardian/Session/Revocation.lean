import Guardian.Lib.Trace
import Guardian.Session.Store

/- What a session key authenticates for.

   The trail of a run has every registration that inserted a row, every revocation,
   revoke-all and sweep, and every lookup that found a session, newest first. Two
   facts about the rows carry everything: the row of a registration is there, or it
   was swept after its expiry (`Kept.registered`); the row of a session that was
   ended is there and revoked, or the same (`Kept.ended`). So whatever times the
   lookups in flight judge by, they find no ended session, and under its key no
   session but the registered one, until a sweep after the expiry.

   A revoke-all ends what is registered. What is registered afterwards it does not
   reach, whenever it was issued; a key whose session was swept may be registered
   anew; and a request that read its clock before a sweep judges by that time. The
   last section has a run for each. -/
namespace Guardian.Session

open Interleaving MetadataStores

/-! ## Trails -/

inductive Happened where
  | registered (key : SessionKey) (session : StoredSession)
  | revoked (key : SessionKey) (session : StoredSession)
  | revokedAll (filter : List (String × String)) (issuedAtOrBefore time : Instant)
  | swept (time : Instant)
  | found (key : SessionKey) (session : StoredSession) (time : Instant)
  deriving DecidableEq, Repr

/-- What a statement that was executed adds to the trail. -/
def trailed (backend : Backend) (databaseNow : Instant) (w : Sessions) (trail : List Happened) :
    Op → List Happened
  | .insertNew key session =>
    match w key with
    | some _ => trail
    | none => .registered key session :: trail
  | .get key now =>
    match live w key (backend.clock now databaseNow) with
    | some session => .found key session (backend.clock now databaseNow) :: trail
    | none => trail
  | .revoke key =>
    match w key with
    | some ⟨session, false⟩ => .revoked key session :: trail
    | _ => trail
  | .revokeBySubject filter issuedAtOrBefore now =>
    .revokedAll filter issuedAtOrBefore (backend.clock now databaseNow) :: trail
  | .sweepExpired now => .swept (backend.clock now databaseNow) :: trail
  | _ => trail

def noteTrail (backend : Backend) : Note Op Sessions Choice (List Happened)
  | _, op, .done databaseNow, w, trail | _, op, .lost databaseNow, w, trail =>
    trailed backend databaseNow w trail op
  | _, _, _, _, trail => trail

/-- No sweep was made at or after `expiry`. -/
def Unswept (trail : List Happened) (expiry : Instant) : Prop :=
  ∀ t, .swept t ∈ trail → t < expiry

/-- The session a key was registered with, as the store keeps it, was revoked, by
itself or by a revoke-all of its signer that came after the registration, was made
before its expiry and has no earlier cutoff than its issue. -/
def Ended (backend : Backend) (key : SessionKey) (session : StoredSession) :
    List Happened → Prop
  | [] => False
  | .revoked k s :: past => (k = key ∧ s = session) ∨ Ended backend key session past
  | .revokedAll filter issuedAtOrBefore time :: past =>
    (∃ granted, .registered key granted ∈ past ∧ backend.keep granted = session ∧
      jsonContains granted.subject.fields filter = true ∧ granted.issuedAt ≤ issuedAtOrBefore ∧
      time < session.expiresAt) ∨
    Ended backend key session past
  | _ :: past => Ended backend key session past

/-! ## Rows -/

theorem column_mono {a b : Instant} (h : a ≤ b) : column a ≤ column b := by
  have htdiv : a.tdiv 1000 ≤ b.tdiv 1000 := Int.tdiv_le_tdiv (by decide) h
  exact Int.mul_le_mul_of_nonneg_left htdiv (by decide)

theorem Backend.keepTime_mono (backend : Backend) {a b : Instant} (h : a ≤ b) :
    backend.keepTime a ≤ backend.keepTime b := by
  cases backend with
  | inMemory => exact h
  | postgres => exact column_mono h

/-- A sweep came after the session's expiry. -/
def Past (trail : List Happened) (session : StoredSession) : Prop :=
  ∃ t, .swept t ∈ trail ∧ session.expiresAt ≤ t

/-- What the rows have of a trail. -/
structure Kept (backend : Backend) (w : Sessions) (trail : List Happened) : Prop where
  registered : ∀ {key granted}, .registered key granted ∈ trail →
    (∃ ended, w key = some ⟨backend.keep granted, ended⟩) ∨ Past trail (backend.keep granted)
  ended : ∀ {key session}, Ended backend key session trail →
    w key = some ⟨session, true⟩ ∨ Past trail session

theorem Past.cons {trail : List Happened} {session : StoredSession} (h : Past trail session)
    (e : Happened) : Past (e :: trail) session := by
  obtain ⟨t, ht, hle⟩ := h
  exact ⟨t, List.mem_cons_of_mem _ ht, hle⟩

theorem Unswept.not_past {trail : List Happened} {session : StoredSession}
    (h : Unswept trail session.expiresAt) : ¬Past trail session := by
  rintro ⟨t, ht, hle⟩
  exact absurd (h t ht) (not_lt.mpr hle)

/-- A row that stays as it is, among more that happened. -/
theorem Kept.cons_found {backend : Backend} {w : Sessions} {trail : List Happened}
    (h : Kept backend w trail) (key : SessionKey) (session : StoredSession) (t : Instant) :
    Kept backend w (.found key session t :: trail) where
  registered := fun hmem => by
    obtain hmem | hmem := List.mem_cons.mp hmem
    · cases hmem
    · exact (h.registered hmem).imp id fun hpast => hpast.cons _
  ended := fun hended => (h.ended hended).imp id fun hpast => hpast.cons _

theorem Kept.insert {backend : Backend} {w : Sessions} {trail : List Happened}
    (h : Kept backend w trail) {key : SessionKey} (session : StoredSession) (hnone : w key = none) :
    Kept backend (Function.update w key (some ⟨backend.keep session, false⟩))
      (.registered key session :: trail) where
  registered := fun {k granted} hmem => by
    obtain hmem | hmem := List.mem_cons.mp hmem
    · cases hmem
      exact .inl ⟨false, Function.update_self _ _ _⟩
    · obtain ⟨ended, hrow⟩ | hpast := h.registered hmem
      · refine .inl ⟨ended, ?_⟩
        rw [Function.update_of_ne]
        · exact hrow
        · rintro rfl
          rw [hnone] at hrow
          cases hrow
      · exact .inr (hpast.cons _)
  ended := fun {k s} hended => by
    obtain hrow | hpast := h.ended hended
    · left
      rw [Function.update_of_ne]
      · exact hrow
      · rintro rfl
        rw [hnone] at hrow
        cases hrow
    · exact .inr (hpast.cons _)

theorem Kept.revoke {backend : Backend} {w : Sessions} {trail : List Happened}
    (h : Kept backend w trail) {key : SessionKey} {session : StoredSession}
    (hrow : w key = some ⟨session, false⟩) :
    Kept backend (Function.update w key (some ⟨session, true⟩))
      (.revoked key session :: trail) where
  registered := fun {k granted} hmem => by
    obtain hmem | hmem := List.mem_cons.mp hmem
    · cases hmem
    · obtain ⟨ended, hk⟩ | hpast := h.registered hmem
      · left
        by_cases hkey : k = key
        · subst hkey
          rw [hrow] at hk
          cases hk
          exact ⟨true, Function.update_self _ _ _⟩
        · exact ⟨ended, by rw [Function.update_of_ne hkey]; exact hk⟩
      · exact .inr (hpast.cons _)
  ended := fun {k s} hended => by
    obtain ⟨rfl, rfl⟩ | hended := hended
    · exact .inl (Function.update_self _ _ _)
    · obtain hk | hpast := h.ended hended
      · left
        by_cases hkey : k = key
        · subst hkey
          rw [hrow] at hk
          cases hk
        · rw [Function.update_of_ne hkey]
          exact hk
      · exact .inr (hpast.cons _)

/-- A revoke-all revokes what it names, of what has not expired. -/
theorem revokedBySubject_row {backend : Backend} {w : Sessions} {key : SessionKey}
    {session : StoredSession} {ended : Bool} (filter : List (String × String))
    (issuedAtOrBefore now : Instant) (hrow : w key = some ⟨session, ended⟩) :
    ∃ ended', revokedBySubject backend w filter issuedAtOrBefore now key =
        some ⟨session, ended'⟩ ∧
      (ended = true → ended' = true) ∧
      (now < session.expiresAt → session.issuedAt ≤ backend.keepTime issuedAtOrBefore →
        jsonContains session.subject.fields filter = true → ended' = true) := by
  have hrow' : revokedBySubject backend w filter issuedAtOrBefore now key =
      some (if meets backend filter issuedAtOrBefore now ⟨session, ended⟩ then ⟨session, true⟩
        else ⟨session, ended⟩) := by
    show (w key).map _ = _
    rw [hrow]
    rfl
  by_cases hmeets : meets backend filter issuedAtOrBefore now ⟨session, ended⟩ = true
  · rw [if_pos hmeets] at hrow'
    exact ⟨true, hrow', fun _ => rfl, fun _ _ _ => rfl⟩
  · rw [if_neg hmeets] at hrow'
    refine ⟨ended, hrow', id, fun hlive hissued hsubject => ?_⟩
    cases ended with
    | true => rfl
    | false => exact absurd (by simp [meets, hlive, hissued, hsubject]) hmeets

theorem Kept.revokeAll {backend : Backend} {w : Sessions} {trail : List Happened}
    (h : Kept backend w trail) (filter : List (String × String)) (issuedAtOrBefore now : Instant) :
    Kept backend (revokedBySubject backend w filter issuedAtOrBefore now)
      (.revokedAll filter issuedAtOrBefore now :: trail) where
  registered := fun {k granted} hmem => by
    obtain hmem | hmem := List.mem_cons.mp hmem
    · cases hmem
    · obtain ⟨ended, hrow⟩ | hpast := h.registered hmem
      · obtain ⟨ended', hrow', -⟩ := revokedBySubject_row filter issuedAtOrBefore now hrow
        exact .inl ⟨ended', hrow'⟩
      · exact .inr (hpast.cons _)
  ended := fun {k s} hended => by
    obtain ⟨granted, hmem, rfl, hsubject, hissued, hlive⟩ | hended := hended
    · -- registered before, and its row is still there
      obtain ⟨ended, hrow⟩ | hpast := h.registered hmem
      · obtain ⟨ended', hrow', -, hrevoked⟩ := revokedBySubject_row filter issuedAtOrBefore now hrow
        left
        rw [hrow', hrevoked hlive (backend.keepTime_mono hissued) hsubject]
      · exact .inr (hpast.cons _)
    · obtain hrow | hpast := h.ended hended
      · obtain ⟨ended', hrow', hstays, -⟩ := revokedBySubject_row filter issuedAtOrBefore now hrow
        left
        rw [hrow', hstays rfl]
      · exact .inr (hpast.cons _)

/-- A sweep drops only what has expired. -/
theorem sweptAt_row {backend : Backend} {w : Sessions} {now : Instant} {key : SessionKey}
    {entry : Entry} (hrow : w key = some entry) :
    sweptAt backend w now key = some entry ∨ entry.session.expiresAt ≤ now := by
  by_cases hsurvives : survives backend now entry = true
  · left
    show (w key).filter _ = _
    rw [hrow, Option.filter_some, if_pos hsurvives]
  · right
    cases backend with
    | inMemory => exact not_lt.mp fun hlt => hsurvives (decide_eq_true hlt)
    | postgres => exact le_of_lt (not_le.mp fun hle => hsurvives (decide_eq_true hle))

theorem Kept.sweep {backend : Backend} {w : Sessions} {trail : List Happened}
    (h : Kept backend w trail) (now : Instant) :
    Kept backend (sweptAt backend w now) (.swept now :: trail) where
  registered := fun {k granted} hmem => by
    obtain hmem | hmem := List.mem_cons.mp hmem
    · cases hmem
    · obtain ⟨ended, hrow⟩ | hpast := h.registered hmem
      · obtain hrow' | hexpired := sweptAt_row hrow
        · exact .inl ⟨ended, hrow'⟩
        · exact .inr ⟨now, List.mem_cons_self, hexpired⟩
      · exact .inr (hpast.cons _)
  ended := fun {k s} hended => by
    obtain hrow | hpast := h.ended hended
    · obtain hrow' | hexpired := sweptAt_row hrow
      · exact .inl hrow'
      · exact .inr ⟨now, List.mem_cons_self, hexpired⟩
    · exact .inr (hpast.cons _)

/-! ## Lookups -/

/-- What a lookup that found a session is right about, from what happened before
it. -/
def Rightful (backend : Backend) (key : SessionKey) (session : StoredSession) (t : Instant)
    (past : List Happened) : Prop :=
  t < session.expiresAt ∧
    (∀ ended, Ended backend key ended past → Unswept past ended.expiresAt →
      ¬(ended.subject = session.subject ∧ ended.expiresAt = session.expiresAt)) ∧
    ∀ granted, .registered key granted ∈ past → Unswept past (backend.keep granted).expiresAt →
      session = backend.keep granted

/-- Every lookup in a trail was rightful. -/
def AllRightful (backend : Backend) : List Happened → Prop
  | [] => True
  | .found key session t :: past =>
    Rightful backend key session t past ∧ AllRightful backend past
  | _ :: past => AllRightful backend past

theorem rightful_of_kept {backend : Backend} {w : Sessions} {trail : List Happened}
    (h : Kept backend w trail) {key : SessionKey} {session : StoredSession} {t : Instant}
    (hlive : live w key t = some session) : Rightful backend key session t trail := by
  obtain ⟨hrow, hlt⟩ : w key = some ⟨session, false⟩ ∧ t < session.expiresAt := by
    rw [live] at hlive
    split at hlive
    · rename_i entry hentry
      split at hlive
      · rename_i hcond
        cases hlive
        obtain ⟨hrevoked, hexpires⟩ := Bool.and_eq_true_iff.mp hcond
        rw [Bool.not_eq_true'] at hrevoked
        refine ⟨?_, of_decide_eq_true hexpires⟩
        rw [hentry, ← hrevoked]
      · cases hlive
    · cases hlive
  refine ⟨hlt, fun ended hended hunswept hsame => ?_, fun granted hmem hunswept => ?_⟩
  · obtain hk | hpast := h.ended hended
    · rw [hrow] at hk
      cases hk
    · exact hunswept.not_past hpast
  · obtain ⟨ended, hk⟩ | hpast := h.registered hmem
    · rw [hrow] at hk
      cases hk
      rfl
    · exact absurd hpast hunswept.not_past

/-! ## Every run -/

/-- The rows and the trail agree, and every lookup was rightful. -/
structure Agree (backend : Backend) (w : Sessions) (trail : List Happened) : Prop where
  kept : Kept backend w trail
  rightful : AllRightful backend trail

/-- The rows after a statement was executed. -/
def after (backend : Backend) (databaseNow : Instant) (w : Sessions) : Op → Sessions
  | .insertNew key session => (inserted backend w key session).2
  | .revoke key => (Session.revoked w key).2
  | .revokeBySubject filter issuedAtOrBefore now =>
    revokedBySubject backend w filter issuedAtOrBefore (backend.clock now databaseNow)
  | .sweepExpired now => sweptAt backend w (backend.clock now databaseNow)
  | _ => w

theorem answer_cases {α : Type} {backend : Backend} {result : Instant → α × Sessions}
    {w w' : Sessions} {ch : Choice} {r : Except SessionError α}
    (h : answer backend result w ch = some (r, w')) :
    (∃ db, (ch = .done db ∨ ch = .lost db) ∧ w' = (result db).2) ∨ (ch = .failed ∧ w' = w) := by
  cases ch with
  | done db => cases h; exact .inl ⟨db, .inl rfl, rfl⟩
  | lost db =>
    cases backend with
    | inMemory => cases h
    | postgres => cases h; exact .inl ⟨db, .inr rfl, rfl⟩
  | failed =>
    cases backend with
    | inMemory => cases h
    | postgres => cases h; exact .inr ⟨rfl, rfl⟩
  | clock | cosigned => cases h

/-- A call was executed, or changed and noted nothing. -/
theorem exec_cases {backend : Backend} {pid : Nat} {op : Op} {ch : Choice} {w w' : Sessions}
    {r : Res op} (trail : List Happened) (hx : exec backend pid op ch w = some (r, w')) :
    (∃ db, w' = after backend db w op ∧
      noteTrail backend pid op ch w trail = trailed backend db w trail op) ∨
    (w' = w ∧ noteTrail backend pid op ch w trail = trail) := by
  cases op with
  | now | findByCosignerCommitment =>
    cases ch <;> cases hx
    exact .inr ⟨rfl, rfl⟩
  | insertNew | get | inactiveReason | revoke | revokeBySubject | sweepExpired =>
    obtain ⟨db, rfl | rfl, rfl⟩ | ⟨rfl, rfl⟩ := answer_cases hx
    · exact .inl ⟨db, rfl, rfl⟩
    · exact .inl ⟨db, rfl, rfl⟩
    · exact .inr ⟨rfl, rfl⟩

theorem Agree.after {backend : Backend} {w : Sessions} {trail : List Happened}
    (h : Agree backend w trail) (databaseNow : Instant) (op : Op) :
    Agree backend (after backend databaseNow w op) (trailed backend databaseNow w trail op) := by
  cases op with
  | now | findByCosignerCommitment | inactiveReason => exact h
  | insertNew key session =>
    rw [Session.after, inserted, trailed]
    cases hrow : w key with
    | some entry => exact h
    | none => exact ⟨h.kept.insert session hrow, h.rightful⟩
  | get key now =>
    show Agree backend w (trailed backend databaseNow w trail (.get key now))
    rw [trailed]
    cases hlive : live w key (backend.clock now databaseNow) with
    | none => exact h
    | some session =>
      exact ⟨h.kept.cons_found _ _ _, rightful_of_kept h.kept hlive, h.rightful⟩
  | revoke key =>
    rw [Session.after, Session.revoked, trailed]
    cases hrow : w key with
    | none => exact h
    | some entry =>
      obtain ⟨session, ended⟩ := entry
      cases ended with
      | true => exact h
      | false => exact ⟨h.kept.revoke hrow, h.rightful⟩
  | revokeBySubject filter issuedAtOrBefore now =>
    exact ⟨h.kept.revokeAll filter issuedAtOrBefore _, h.rightful⟩
  | sweepExpired now => exact ⟨h.kept.sweep _, h.rightful⟩

theorem exec_agree {backend : Backend} (pid : Nat) {op : Op} {ch : Choice} {w w' : Sessions}
    {r : Res op} {trail : List Happened} (hx : exec backend pid op ch w = some (r, w'))
    (h : Agree backend w trail) : Agree backend w' (noteTrail backend pid op ch w trail) := by
  obtain ⟨db, rfl, hnote⟩ | ⟨rfl, hnote⟩ := exec_cases trail hx
  · rw [hnote]
    exact h.after db op
  · rw [hnote]
    exact h

theorem AllRightful.split {backend : Backend} {newer past : List Happened} {key : SessionKey}
    {session : StoredSession} {t : Instant}
    (h : AllRightful backend (newer ++ .found key session t :: past)) :
    Rightful backend key session t past := by
  induction newer with
  | nil => exact h.1
  | cons e newer ih =>
    cases e with
    | found => exact ih h.2
    | registered | revoked | revokedAll | swept => exact ih h

/-- A revoke-all's filter names the sessions of its signer. -/
theorem jsonContains_signerFilter (session : MidenSession) (signer : String) :
    jsonContains session.subject.fields (signerFilter signer) = true ↔
      session.signerCommitment = signer := by
  have hrealm : session.subject.fields.lookup "realm" = some "miden" := rfl
  have hsigner : session.subject.fields.lookup "signer_commitment" =
      some session.signerCommitment := rfl
  rw [jsonContains, signerFilter, List.all_cons, List.all_cons, List.all_nil, hrealm, hsigner,
    beq_self_eq_true, Bool.true_and, Bool.and_true, beq_iff_eq, Option.some.injEq]

/-- Any answers at all. -/
def anyAnswers : Contract Op Res := ⟨fun _ _ => True, fun _ _ => True⟩

/-- A session is found by one lookup in the store. -/
theorem returns_find (server : Server) (sessionPublicKey : List UInt8) (now : Instant)
    {h : History Op Res} :
    anyAnswers.Returns (find server sessionPublicKey now)
      (fun session h' => ∃ stored, stored.subject = session.subject ∧
        h' = ⟨.get (server.storeKey sessionPublicKey) now, Except.ok (some stored)⟩ :: h) h := by
  refine Contract.Returns.bind' (Contract.Returns.op' trivial fun answer _ => ?_)
  match answer with
  | .error e => exact Contract.Returns.throw' _
  | .ok (some stored) =>
    refine Contract.Returns.bind' (Contract.Returns.pure' ?_)
    dsimp only
    split
    · rename_i signer origin guardian network hsubject
      exact Contract.Returns.pure' ⟨stored, hsubject, rfl⟩
    · exact Contract.Returns.throw' _
  | .ok none =>
    refine Contract.Returns.bind' (Contract.Returns.pure' ?_)
    refine Contract.Returns.bind' (Contract.Returns.op' trivial fun reason _ => ?_)
    match reason with
    | .error e => exact Contract.Returns.throw' _
    | .ok (some true) => exact Contract.Returns.throw' _
    | .ok (some false) => exact Contract.Returns.throw' _
    | .ok none => exact Contract.Returns.throw' _

theorem ended_of_revoked {backend : Backend} {key : SessionKey} {session : StoredSession}
    {trail : List Happened} (h : .revoked key session ∈ trail) :
    Ended backend key session trail := by
  induction trail with
  | nil => cases h
  | cons e trail ih =>
    obtain rfl | hrest := List.mem_cons.mp h
    · exact .inl ⟨rfl, rfl⟩
    · cases e with
      | revoked | revokedAll => exact .inr (ih hrest)
      | registered | swept | found => exact ih hrest

theorem ended_of_revokedAll {backend : Backend} {key : SessionKey} {granted : StoredSession}
    {filter : List (String × String)} {cutoff time : Instant} {between older : List Happened}
    (hmem : .registered key granted ∈ older)
    (hsubject : jsonContains granted.subject.fields filter = true) (hissued : granted.issuedAt ≤ cutoff)
    (hlive : time < (backend.keep granted).expiresAt) : Ended backend key (backend.keep granted)
      (between ++ .revokedAll filter cutoff time :: older) := by
  induction between with
  | nil => exact .inl ⟨granted, hmem, rfl, hsubject, hissued, hlive⟩
  | cons e between ih =>
    cases e with
    | revoked | revokedAll => exact .inr ih
    | registered | swept | found => exact ih

/-- No session is stored. -/
def noSessions : Sessions := fun _ => none

theorem agree_noSessions (backend : Backend) : Agree backend noSessions [] where
  kept :=
    { registered := fun hmem => absurd hmem List.not_mem_nil
      ended := fun hended => hended.elim }
  rightful := trivial

/-- In every run, with any number of requests on any number of replicas, over
either store: a lookup finds only a session that has not expired at the time it
judges by. As long as no sweep was made at or after a grant's expiry, the session
that is found
  1. is not of that grant if it was revoked before;
  2. is not of that grant if it was registered before a revoke-all of its signer
     that was made before the expiry, and issued no later than its cutoff;
  3. is that of the grant, and so of its signer, if the grant was registered under
     the key.
A request is authenticated by one such lookup under the digest of its key. -/
theorem found_session_not_ended {backend : Backend} {servers : Nat → Server × Verifier}
    {c : Conf Op Res Sessions Request} {trail : List Happened}
    (h : Recorded (machine backend) (handle servers) anyRun (noteTrail backend) noSessions [] c
      trail) :
    (∀ newer key session t past, trail = newer ++ .found key session t :: past →
      t < session.expiresAt ∧
      (∀ ended, .revoked key ended ∈ past → Unswept past ended.expiresAt →
        ¬(ended.subject = session.subject ∧ ended.expiresAt = session.expiresAt)) ∧
      (∀ (granted : MidenSession) issuedAt expiresAt cutoff time between older,
        past = between ++ .revokedAll (signerFilter granted.signerCommitment) cutoff time :: older →
        .registered key ⟨granted.subject, issuedAt, expiresAt⟩ ∈ older → issuedAt ≤ cutoff →
        time < backend.keepTime expiresAt → Unswept past (backend.keepTime expiresAt) →
        ¬(granted.subject = session.subject ∧ backend.keepTime expiresAt = session.expiresAt)) ∧
      ∀ granted, .registered key granted ∈ past → Unswept past (backend.keepTime granted.expiresAt) →
        session = backend.keep granted) ∧
    ∀ replica sessionPublicKey now calls session,
      anyAnswers.After (find (servers replica).1 sessionPublicKey now).run calls
          (.done (.ok session)) →
        ∃ stored, stored.subject = session.subject ∧
          calls = [⟨.get ((servers replica).1.storeKey sessionPublicKey) now,
            Except.ok (some stored)⟩] := by
  constructor
  · rintro newer key session t past rfl
    have hagree : Agree backend c.world (newer ++ .found key session t :: past) :=
      Recorded.induct (K := fun _ _ _ => True) (I := Agree backend) (fun _ _ => trivial)
        (agree_noSessions backend)
        (fun {pid _ _ _ _ _ _} _ _ hx hw => exec_agree pid hx hw) (fun {a} => nomatch a) h
    obtain ⟨hexpires, hended, hbound⟩ := hagree.rightful.split
    refine ⟨hexpires, fun ended hmem => hended ended (ended_of_revoked hmem), ?_, hbound⟩
    rintro granted issuedAt expiresAt cutoff time between older rfl hmem hissued hlive
    have hsubject : jsonContains granted.subject.fields (signerFilter granted.signerCommitment) = true :=
      (jsonContains_signerFilter granted _).mpr rfl
    exact hended _ (ended_of_revokedAll hmem hsubject hissued hlive)
  · intro replica sessionPublicKey now calls session hafter
    exact (returns_find (servers replica).1 sessionPublicKey now).rest hafter session rfl

/-! ## Where a lookup finds more -/

namespace OneKey

def server : Server where
  maxTtlSeconds := 28800
  network := "devnet"
  ackCommitment := fun _ => "0xc"
  storeKey := id
  representable := fun _ => true

/-- Any wallet, and one session key. -/
def verifier : Verifier where
  checkWalletSignatureHex := fun _ => .ok ()
  verifyGrant := fun params => .ok ([7], params.signerCommitment)
  verifyDelegated := fun _ => .ok [7]
  verifyRevokeAll := fun commitment _ => .ok commitment
  parseWord := fun _ => .ok ()

def servers (_replica : Nat) : Server × Verifier := (server, verifier)

/-- A time, in seconds from the epoch of `Instant`. -/
def second (n : Nat) : Instant := n * 10 ^ 9

/-- A wallet's grant, issued at a second, for an hour. -/
def grant (wallet : String) (n : Nat) : CreateSessionParams where
  scheme := .falcon
  signature := "00"
  signerCommitment := wallet
  sessionPublicKey := "07"
  origin := ""
  issuedAt := .ofNat (946684800 + n)
  expiresAt := .ofNat (946684800 + n + 3600)
  guardianCommitment := "0xc"
  network := "devnet"

/-- What is stored of it, registered after it was issued. -/
def stored (wallet : String) (n : Nat) : StoredSession :=
  ⟨.miden wallet "" "0xc" "devnet", second n, second (n + 3600)⟩

/-- A registration up to its insertion. -/
def checks (pid : Nat) (wallet : String) (issued now : Nat) : List (Event Request Choice Act) :=
  [.spawn pid (.create 0 (grant wallet issued)), .run pid (.clock (second now)),
    .run pid (.cosigned (.ok true))]

/-- The next statement of a process. -/
def statement (pid now : Nat) : List (Event Request Choice Act) := [.run pid (.done (second now))]

/-- A request up to its lookup. -/
def arrives (pid now : Nat) : List (Event Request Choice Act) :=
  [.spawn pid (.authenticate 1 ""), .run pid (.clock (second now))]

/-- The wallet `0xa` revokes everything issued up to second 60, then. -/
def revokesAll (pid : Nat) : List (Event Request Choice Act) :=
  [.spawn pid (.revokeAll 0 ⟨"0xa", 946684860000, "0xa", false⟩), .run pid (.clock (second 60)),
    .run pid (.clock (second 60))] ++ statement pid 60

def logsOut (pid now : Nat) : List (Event Request Choice Act) :=
  [.spawn pid (.logout 0 "" (946684800000 + 1000 * now)), .run pid (.clock (second now)),
    .run pid (.clock (second now))] ++ statement pid now ++ statement pid now

def sweeps (pid now : Nat) : List (Event Request Choice Act) :=
  [.spawn pid .sweep, .run pid (.clock (second now))] ++ statement pid now

def final (backend : Backend) (events : List (Event Request Choice Act)) :
    Option (Conf Op Res Sessions Request × List Happened) :=
  runRecorded (machine backend) (handle servers) anyRun (noteTrail backend) (Conf.start noSessions)
    [] events

/-- Some run of the store leaves the trail. -/
def Leaves (backend : Backend) (trail : List Happened) : Prop :=
  ∃ c, Recorded (machine backend) (handle servers) anyRun (noteTrail backend) noSessions [] c trail

theorem leaves_of_final {backend : Backend} {e : List (Event Request Choice Act)}
    {trail : List Happened} (h : (final backend e).map (fun x => x.2) = some trail) :
    Leaves backend trail := by
  obtain ⟨⟨c, trail'⟩, hrun, rfl⟩ := Option.map_eq_some_iff.mp h
  exact ⟨c, Recorded.init.runRecorded hrun⟩

end OneKey

open OneKey in
/-- A grant is registered and looked up; what is found has not expired, and is what
was registered. -/
theorem found_session_not_ended_registered :
    Leaves .postgres
        [.found [7] (stored "0xa" 0) (second 62), .registered [7] (stored "0xa" 0)] ∧
      second 62 < (stored "0xa" 0).expiresAt := by
  have hleaves : Leaves .postgres
      [.found [7] (stored "0xa" 0) (second 62), .registered [7] (stored "0xa" 0)] :=
    leaves_of_final (e := checks 0 "0xa" 0 61 ++ statement 0 61 ++ arrives 1 62 ++
      statement 1 62) (by decide +kernel)
  obtain ⟨c, hrec⟩ := hleaves
  exact ⟨⟨c, hrec⟩, ((found_session_not_ended hrec).1 [] _ _ _ _ rfl).1⟩

open OneKey in
/-- Three runs in which a session is found.
  1. Over either store, the grant was issued before the cutoff of a revoke-all of
     its signer, and registered after that.
  2. The key was first registered for another signer; that session expired and was
     swept.
  3. The grant was revoked. A registration and a request read their clocks before
     its expiry and went on after the sweep that removed the revoked row. -/
theorem found_session_though_ended :
    (Leaves .inMemory [.found [7] (stored "0xa" 0) (second 62), .registered [7] (stored "0xa" 0),
        .revokedAll (signerFilter "0xa") (second 60) (second 60)] ∧
      Leaves .postgres [.found [7] (stored "0xa" 0) (second 62), .registered [7] (stored "0xa" 0),
        .revokedAll (signerFilter "0xa") (second 60) (second 60)] ∧
      (stored "0xa" 0).issuedAt ≤ second 60) ∧
    Leaves .postgres [.found [7] (stored "0xb" 4000) (second 4002),
      .registered [7] (stored "0xb" 4000), .swept (second 3700),
      .registered [7] (stored "0xa" 0)] ∧
    Leaves .inMemory [.found [7] (stored "0xa" 0) (second 3), .registered [7] (stored "0xa" 0),
      .swept (second 3700), .revoked [7] (stored "0xa" 0),
      .found [7] (stored "0xa" 0) (second 2), .registered [7] (stored "0xa" 0)] := by
  refine ⟨⟨?_, ?_, by decide⟩, ?_, ?_⟩
  · exact leaves_of_final (e := revokesAll 0 ++ checks 1 "0xa" 0 61 ++ statement 1 61 ++
      arrives 2 62 ++ statement 2 62) (by decide +kernel)
  · exact leaves_of_final (e := revokesAll 0 ++ checks 1 "0xa" 0 61 ++ statement 1 61 ++
      arrives 2 62 ++ statement 2 62) (by decide +kernel)
  · exact leaves_of_final (e := checks 0 "0xa" 0 1 ++ statement 0 1 ++ sweeps 1 3700 ++
      checks 2 "0xb" 4000 4001 ++ statement 2 4001 ++ arrives 3 4002 ++ statement 3 4002)
      (by decide +kernel)
  · exact leaves_of_final (e := checks 0 "0xa" 0 1 ++ statement 0 1 ++ checks 1 "0xa" 0 1 ++
      logsOut 2 2 ++ arrives 3 3 ++ sweeps 4 3700 ++ statement 1 3701 ++ statement 3 3701)
      (by decide +kernel)

end Guardian.Session
