import Guardian.Lib.Table
import Mathlib

/- Login challenges (`coordination/challenge_store.rs`, `postgres/challenge_store.rs`).
   A store keeps the pending challenges of each principal, at most so many of
   them. A challenge is claimed once: the in-memory store removes it, Postgres marks
   its row.

   The two differ in whose clock they go by, in what they do with a key that is
   issued again, and in how long a row stays. `ChallengeStore` is what the login
   relies on in both: an operation adds no pending challenge but the one issued, and
   a claim takes one away.

   A store is bound to one realm; a transaction is one step. Times are in
   nanoseconds. -/
namespace Guardian.Login

/-! ## Challenges -/

structure EvmChallenge where
  address : String
  nonce : String
  issuedAt : Int
  expiresAt : Int
  deriving DecidableEq, Repr

/-- The digest is the text of its canonical hex form. -/
inductive ChallengePayload where
  | operatorDigest (digest : String)
  | evmChallenge (challenge : EvmChallenge)
  deriving DecidableEq, Repr

structure StoredChallenge where
  key : String
  payload : ChallengePayload
  issuedAt : Int
  expiresAt : Int
  deriving DecidableEq, Repr

/-! ## In memory -/

namespace InMemory

/-- The pending challenges of each principal. -/
abbrev Challenges := String → List StoredChallenge

def issue (principal : String) (challenge : StoredChallenge) (maxOutstanding : Nat) (now : Int)
    (s : Challenges) : Challenges :=
  let pending := (s principal).filter (fun c => decide (now < c.expiresAt)) ++ [challenge]
  let pending :=
    if maxOutstanding < pending.length then
      (pending.insertionSort (fun a b => a.issuedAt ≤ b.issuedAt)).drop
        (pending.length - maxOutstanding)
    else pending
  Function.update s principal pending

def activeFor (principal : String) (now : Int) (s : Challenges) : List StoredChallenge :=
  (s principal).filter (fun c => decide (now < c.expiresAt))

def claims (key : String) (now : Int) (c : StoredChallenge) : Bool :=
  decide (c.key = key) && decide (now < c.expiresAt)

def consume (principal key : String) (now : Int) (s : Challenges) : Bool × Challenges :=
  if (s principal).any (claims key now) then
    (true, Function.update s principal ((s principal).eraseP (claims key now)))
  else (false, s)

def sweepExpired (now : Int) (s : Challenges) : Challenges :=
  fun principal => (s principal).filter (fun c => decide (now < c.expiresAt))

end InMemory

/-! ## Postgres -/

structure AuthChallengeRow where
  challengeKey : String
  principal : String
  payload : ChallengePayload
  issuedAt : Int
  expiresAt : Int
  consumedAt : Option Int
  deriving DecidableEq, Repr

namespace AuthChallengeRow

def intoStored (r : AuthChallengeRow) : StoredChallenge :=
  ⟨r.challengeKey, r.payload, r.issuedAt, r.expiresAt⟩

/-- `principal = $1 AND consumed_at IS NULL`. -/
def pendingFor (principal : String) (r : AuthChallengeRow) : Bool :=
  decide (r.principal = principal) && r.consumedAt.isNone

end AuthChallengeRow

/-- The order in which Postgres comes upon rows, where the query names none. -/
structure Scan where
  order : List AuthChallengeRow → List AuthChallengeRow
  perm : ∀ rows, (order rows).Perm rows

namespace Postgres

abbrev Challenges := Table AuthChallengeRow.challengeKey

/-- The row of a challenge: its lifetime in whole seconds, from the database's now. -/
def row (principal : String) (challenge : StoredChallenge) (now : Int) : AuthChallengeRow :=
  let ttlSecs := max ((challenge.expiresAt - challenge.issuedAt).tdiv (10 ^ 9)) 0
  ⟨challenge.key, principal, challenge.payload, now, now + ttlSecs * 10 ^ 9, none⟩

/-- `ON CONFLICT (realm, challenge_key) DO UPDATE`: the latest wins. -/
def upsert (r : AuthChallengeRow) (t : Challenges) : Challenges :=
  (t.delete (fun other => decide (other.challengeKey = r.challengeKey))).insert r

/-- The pending rows past the newest `maxOutstanding`. -/
def surplus (scan : Scan) (principal : String) (maxOutstanding : Nat) (t : Challenges) :
    List AuthChallengeRow :=
  ((scan.order (t.select (·.pendingFor principal))).insertionSort
    (fun a b => b.issuedAt ≤ a.issuedAt)).drop maxOutstanding

def issue (scan : Scan) (principal : String) (challenge : StoredChallenge) (maxOutstanding : Nat)
    (now : Int) (t : Challenges) : Challenges :=
  let t := upsert (row principal challenge now) t
  let t := t.delete (fun r => decide (r.principal = principal) && decide (r.expiresAt < now))
  t.delete (fun r => decide (r ∈ surplus scan principal maxOutstanding t))

def activeFor (scan : Scan) (principal : String) (now : Int) (t : Challenges) :
    List StoredChallenge :=
  (scan.order (t.select (fun r => r.pendingFor principal && decide (now < r.expiresAt)))).map
    (·.intoStored)

def claims (principal key : String) (now : Int) (r : AuthChallengeRow) : Bool :=
  r.pendingFor principal && decide (r.challengeKey = key) && decide (now < r.expiresAt)

def consume (principal key : String) (now : Int) (t : Challenges) : Bool × Challenges :=
  (decide ((t.select (claims principal key now)).length = 1),
    t.update (claims principal key now) (fun r => { r with consumedAt := some now })
      (fun _ => rfl))

def sweepExpired (now : Int) (t : Challenges) : Challenges :=
  t.delete (fun r => decide (r.expiresAt < now))

/-- The pending challenges of a principal. -/
def pending (t : Challenges) (principal : String) : List StoredChallenge :=
  (t.select (·.pendingFor principal)).map (·.intoStored)

end Postgres

/-! ## What the login relies on -/

structure ChallengeStore where
  State : Type
  empty : State
  /-- The clock of an operation, from the caller's and the database's. -/
  clock : Int → Int → Int
  /-- What is kept of an issued challenge. -/
  kept : String → StoredChallenge → Int → StoredChallenge
  issue : String → StoredChallenge → Nat → Int → State → State
  activeFor : String → Int → State → List StoredChallenge
  consume : String → String → Int → State → Bool × State
  sweepExpired : Int → State → State
  pending : State → String → List StoredChallenge
  pending_empty : ∀ principal, pending empty principal = []
  kept_key : ∀ {principal challenge now}, (kept principal challenge now).key = challenge.key
  issue_self : ∀ {principal challenge max now s},
    (pending (issue principal challenge max now s) principal).Subperm
      (kept principal challenge now :: pending s principal)
  issue_other : ∀ {principal challenge max now s other}, other ≠ principal →
    (pending (issue principal challenge max now s) other).Subperm (pending s other)
  issue_length : ∀ {principal challenge max now s},
    (pending (issue principal challenge max now s) principal).length ≤ max
  mem_activeFor : ∀ {principal now s c}, c ∈ activeFor principal now s → c ∈ pending s principal
  consume_le : ∀ {principal key now s other},
    (pending (consume principal key now s).2 other).Subperm (pending s other)
  consume_takes : ∀ {principal key now s}, (consume principal key now s).1 = true →
    ∃ c, c.key = key ∧ now < c.expiresAt ∧
      (c :: pending (consume principal key now s).2 principal).Subperm (pending s principal)
  sweep_le : ∀ {now s principal},
    (pending (sweepExpired now s) principal).Subperm (pending s principal)

namespace InMemory

variable {principal : String} {challenge : StoredChallenge} {maxOutstanding : Nat} {now : Int}
  {s : Challenges}

theorem issue_subperm : (issue principal challenge maxOutstanding now s principal).Subperm
    (challenge :: s principal) := by
  have hpushed : ((s principal).filter (fun c => decide (now < c.expiresAt)) ++
      [challenge]).Subperm (challenge :: s principal) :=
    (List.perm_append_singleton _ _).subperm.trans
      ((List.filter_sublist.cons_cons challenge).subperm)
  simp only [issue, Function.update_self]
  split
  · exact ((List.drop_sublist _ _).subperm.trans (List.perm_insertionSort _ _).subperm).trans
      hpushed
  · exact hpushed

theorem length_issue : (issue principal challenge maxOutstanding now s principal).length ≤
    maxOutstanding := by
  simp only [issue, Function.update_self]
  split
  · rw [List.length_drop, List.length_insertionSort]
    omega
  · omega

theorem consume_sublist {key other : String} :
    ((consume principal key now s).2 other).Sublist (s other) := by
  unfold consume
  split
  · dsimp only
    by_cases h : other = principal
    · subst h
      rw [Function.update_self]
      exact List.eraseP_sublist
    · rw [Function.update_of_ne h]
  · exact List.Sublist.refl _

theorem consume_takes {key : String} (h : (consume principal key now s).1 = true) :
    ∃ c, c.key = key ∧ now < c.expiresAt ∧
      (c :: (consume principal key now s).2 principal).Subperm (s principal) := by
  unfold consume at h ⊢
  split at h
  · next hany =>
    obtain ⟨c, hc, hclaims⟩ := List.any_eq_true.mp hany
    obtain ⟨first, before, after, -, hfirst, heq, herase⟩ := List.exists_of_eraseP hc hclaims
    have hfirst' : first.key = key ∧ now < first.expiresAt := by simpa [claims] using hfirst
    refine ⟨first, hfirst'.1, hfirst'.2, ?_⟩
    rw [if_pos hany]
    dsimp only
    rw [Function.update_self, herase, heq]
    exact List.perm_middle.symm.subperm
  · cases h

/-- The in-memory store. -/
def store : ChallengeStore where
  State := Challenges
  empty := fun _ => []
  clock := fun now _ => now
  kept := fun _ challenge _ => challenge
  issue := issue
  activeFor := activeFor
  consume := consume
  sweepExpired := sweepExpired
  pending := fun s principal => s principal
  pending_empty := fun _ => rfl
  kept_key := rfl
  issue_self := issue_subperm
  issue_other := fun hne => by
    simp only [issue, Function.update_of_ne hne]
    exact List.Subperm.refl _
  issue_length := length_issue
  mem_activeFor := fun hc => List.mem_of_mem_filter hc
  consume_le := consume_sublist.subperm
  consume_takes := consume_takes
  sweep_le := List.filter_sublist.subperm

end InMemory

namespace Postgres

variable {principal : String} {challenge : StoredChallenge} {maxOutstanding : Nat} {now : Int}
  {scan : Scan} {t : Challenges}

/-- Fewer rows, fewer pending challenges. -/
theorem pending_sublist {u : Challenges} (h : u.rows.Sublist t.rows) (principal : String) :
    (pending u principal).Sublist (pending t principal) :=
  (h.filter _).map _

theorem delete_sublist (p : AuthChallengeRow → Bool) : (t.delete p).rows.Sublist t.rows :=
  List.filter_sublist

/-- Only the row that was put in may be new. -/
theorem pending_upsert (r : AuthChallengeRow) (other : String) :
    (pending (upsert r t) other).Subperm
      (if r.pendingFor other then r.intoStored :: pending t other else pending t other) := by
  have hfresh : ∀ b ∈ t.delete (fun b => decide (b.challengeKey = r.challengeKey)),
      b.challengeKey ≠ r.challengeKey := by
    intro b hb
    simpa using (Table.mem_delete.mp hb).2
  have hperm : (pending (upsert r t) other).Perm
      (((r :: (t.delete (fun b => decide (b.challengeKey = r.challengeKey))).rows).filter
        (·.pendingFor other)).map (·.intoStored)) :=
    ((Table.rows_insert_perm hfresh).filter _).map _
  have hsub : (pending (t.delete (fun b => decide (b.challengeKey = r.challengeKey)))
      other).Sublist (pending t other) := pending_sublist (delete_sublist _) other
  refine hperm.subperm.trans ?_
  split
  · next hr =>
    rw [List.filter_cons_of_pos hr]
    exact (hsub.cons_cons _).subperm
  · next hr =>
    rw [List.filter_cons_of_neg hr]
    exact hsub.subperm

theorem issue_sublist : (issue scan principal challenge maxOutstanding now t).rows.Sublist
    (upsert (row principal challenge now) t).rows :=
  (delete_sublist _).trans (delete_sublist _)

theorem issue_subperm : (pending (issue scan principal challenge maxOutstanding now t)
    principal).Subperm ((row principal challenge now).intoStored :: pending t principal) := by
  have hupsert := pending_upsert (t := t) (row principal challenge now) principal
  rw [if_pos (by simp [AuthChallengeRow.pendingFor, row])] at hupsert
  exact (pending_sublist issue_sublist principal).subperm.trans hupsert

theorem issue_other {other : String} (hne : other ≠ principal) :
    (pending (issue scan principal challenge maxOutstanding now t) other).Subperm
      (pending t other) := by
  have hupsert := pending_upsert (t := t) (row principal challenge now) other
  rw [if_neg (by simp [AuthChallengeRow.pendingFor, row, hne.symm])] at hupsert
  exact (pending_sublist issue_sublist other).subperm.trans hupsert

/-- What is left after the surplus is among the newest. -/
theorem length_pending_surplus : (pending (t.delete (fun r =>
    decide (r ∈ surplus scan principal maxOutstanding t))) principal).length ≤ maxOutstanding := by
  have hperm : ((scan.order (t.select (·.pendingFor principal))).insertionSort
      (fun a b => b.issuedAt ≤ a.issuedAt)).Perm (t.select (·.pendingFor principal)) :=
    (List.perm_insertionSort _ _).trans (scan.perm _)
  have hsub : (t.delete (fun r => decide (r ∈ surplus scan principal maxOutstanding t))).select
      (·.pendingFor principal) ⊆ ((scan.order (t.select (·.pendingFor principal))).insertionSort
        (fun a b => b.issuedAt ≤ a.issuedAt)).take maxOutstanding := by
    intro r hr
    obtain ⟨hmem, hpending⟩ := Table.mem_select.mp hr
    obtain ⟨hmem, hkept⟩ := Table.mem_delete.mp hmem
    have hsorted := hperm.mem_iff.mpr (Table.mem_select.mpr ⟨hmem, hpending⟩)
    rw [← List.take_append_drop maxOutstanding (List.insertionSort _ _)] at hsorted
    obtain htake | hdrop := List.mem_append.mp hsorted
    · exact htake
    · exact absurd hdrop (of_decide_eq_false hkept)
  have hnodup : ((t.delete (fun r => decide (r ∈ surplus scan principal maxOutstanding t))).select
      (·.pendingFor principal)).Nodup :=
    (Table.sorted_select _ _).imp fun hlt heq => hlt.ne (congrArg _ heq)
  rw [pending, List.length_map]
  exact (hnodup.subperm hsub).length_le.trans (List.length_take_le _ _)

theorem length_issue : (pending (issue scan principal challenge maxOutstanding now t)
    principal).length ≤ maxOutstanding := length_pending_surplus

/-- The rows that are pending after a claim were pending and not claimed. -/
theorem pending_consume (principal key other : String) :
    pending (consume principal key now t).2 other =
      ((t.select (·.pendingFor other)).filter (fun r => !claims principal key now r)).map
        (·.intoStored) := by
  have hrows : (t.rows.map (fun r => if claims principal key now r then
      { r with consumedAt := some now } else r)).filter (·.pendingFor other) =
        (t.rows.filter (·.pendingFor other)).filter (fun r => !claims principal key now r) := by
    rw [List.filter_map, List.filter_filter]
    have hfilter : t.rows.filter ((AuthChallengeRow.pendingFor other) ∘ fun r =>
        if claims principal key now r then { r with consumedAt := some now } else r) =
          t.rows.filter (fun r => !claims principal key now r && r.pendingFor other) := by
      refine List.filter_congr fun r _ => ?_
      cases hr : claims principal key now r <;>
        simp [hr, AuthChallengeRow.pendingFor]
    rw [hfilter]
    refine (List.map_congr_left fun r hr => ?_).trans (List.map_id _)
    obtain ⟨-, hkept⟩ := List.mem_filter.mp hr
    have hnot : claims principal key now r = false := by
      simpa using (Bool.and_eq_true_iff.mp hkept).1
    simp [hnot]
  exact congrArg (List.map _) hrows

theorem consume_takes {key : String} (h : (consume principal key now t).1 = true) :
    ∃ c, c.key = key ∧ now < c.expiresAt ∧
      (c :: pending (consume principal key now t).2 principal).Subperm (pending t principal) := by
  obtain ⟨r, hone⟩ := List.length_eq_one_iff.mp (of_decide_eq_true h)
  have hr : r ∈ t.select (claims principal key now) := by
    rw [hone]
    exact List.mem_singleton_self r
  obtain ⟨hmem, hclaims⟩ := Table.mem_select.mp hr
  have hparts : (r.pendingFor principal = true ∧ r.challengeKey = key) ∧ now < r.expiresAt := by
    simpa [claims] using hclaims
  obtain ⟨⟨hpending, hkey⟩, hexpires⟩ := hparts
  refine ⟨r.intoStored, hkey, hexpires, ?_⟩
  have hnot : r ∉ (t.select (·.pendingFor principal)).filter
      (fun r => !claims principal key now r) := by
    intro hin
    have hfalse := List.of_mem_filter hin
    simp [hclaims] at hfalse
  obtain ⟨l, hperm, hsub⟩ := List.cons_subperm_of_not_mem_of_mem hnot
    (Table.mem_select.mpr ⟨hmem, hpending⟩) List.filter_sublist.subperm
  rw [pending_consume]
  exact ⟨l.map (·.intoStored), hperm.map _, hsub.map _⟩

/-- The Postgres store. -/
def store (scan : Scan) : ChallengeStore where
  State := Challenges
  empty := .empty
  clock := fun _ now => now
  kept := fun principal challenge now => (row principal challenge now).intoStored
  issue := issue scan
  activeFor := activeFor scan
  consume := consume
  sweepExpired := sweepExpired
  pending := pending
  pending_empty := fun _ => rfl
  kept_key := rfl
  issue_self := issue_subperm
  issue_other := issue_other
  issue_length := length_issue
  mem_activeFor := fun {principal now t c} hc => by
    obtain ⟨r, hr, rfl⟩ := List.mem_map.mp hc
    obtain ⟨hmem, hactive⟩ := Table.mem_select.mp ((scan.perm _).mem_iff.mp hr)
    have hpending : r.pendingFor principal = true := (Bool.and_eq_true_iff.mp hactive).1
    exact List.mem_map_of_mem (Table.mem_select.mpr ⟨hmem, hpending⟩)
  consume_le := by
    intro principal key now t other
    rw [pending_consume]
    exact (List.filter_sublist.map _).subperm
  consume_takes := consume_takes
  sweep_le := (pending_sublist (delete_sublist _) _).subperm

end Postgres

end Guardian.Login
