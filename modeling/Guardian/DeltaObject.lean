import Mathlib.Data.BitVec

/- The delta record and its status machine (`server/src/delta_object.rs`).

   Commitments, payloads and state documents are the strings the server stores
   and compares. A nonce is a `u64` here and a `BIGINT` in the database: the
   `deltas.nonce` column is written with `nonce as i64`, so `nonceColumn` is
   the signed reading of the same 64 bits, and it is the column the database
   orders by. An RFC 3339 status timestamp is written as the instant it
   denotes. The counters of a status are `u32`s: runs stay below `2^32`. The
   account id is left out: every record below belongs to the one account the
   development is about. -/
namespace Guardian

abbrev Commitment := String
abbrev Payload := String
abbrev StateJson := String
abbrev Time := Nat

/-- A delta's `nonce: u64`. -/
abbrev Nonce := BitVec 64

/-- `nonce as i64`, the value of the `deltas.nonce` column. -/
def nonceColumn (n : Nonce) : Int := n.toInt

theorem nonceColumn_inj {m n : Nonce} (h : nonceColumn m = nonceColumn n) : m = n :=
  BitVec.eq_of_toInt_eq h

/-- Below `2^63` the column orders nonces as the `u64`s they are. -/
theorem nonceColumn_lt_iff {m n : Nonce} (hm : m.toNat < 2^63) (hn : n.toNat < 2^63) :
    nonceColumn m < nonceColumn n ↔ m < n := by
  unfold nonceColumn
  rw [BitVec.toInt_eq_toNat_cond, BitVec.toInt_eq_toNat_cond, if_pos (by omega), if_pos (by omega),
    BitVec.lt_def]
  omega

inductive DiscardReason where
  | clientAbandoned
  deriving DecidableEq, Repr

inductive RetainReason where
  | retryExhausted
  | diverged
  | orphaned
  deriving DecidableEq, Repr

structure CosignerSignature where
  signature : String
  timestamp : Time
  signerId : String
  deriving DecidableEq, Repr

inductive DeltaStatus where
  | pending (timestamp : Time) (proposerId : String) (cosignerSigs : List CosignerSignature)
  | candidate (timestamp : Time) (retryCount divergenceCount : Nat)
      (abandonRequestedAt : Option Time) (abandonConfirmCount : Nat)
  | canonical (timestamp : Time)
  | retained (timestamp : Time) (reason : Option RetainReason)
  | discarded (timestamp : Time) (reason : Option DiscardReason)
  deriving DecidableEq, Repr

namespace DeltaStatus

/-- `DeltaStatus::candidate`: a candidate with every counter at zero. -/
def newCandidate (timestamp : Time) : DeltaStatus := .candidate timestamp 0 0 none 0

/-- `DeltaStatus::discarded_client_abandoned`. -/
def discardedClientAbandoned (timestamp : Time) : DeltaStatus :=
  .discarded timestamp (some .clientAbandoned)

def isCandidate : DeltaStatus → Bool
  | .candidate .. => true
  | _ => false

def isCanonical : DeltaStatus → Bool
  | .canonical _ => true
  | _ => false

def isRetained : DeltaStatus → Bool
  | .retained .. => true
  | _ => false

def isClientAbandoned : DeltaStatus → Bool
  | .discarded _ (some .clientAbandoned) => true
  | _ => false

def abandonRequestedAt : DeltaStatus → Option Time
  | .candidate _ _ _ at? _ => at?
  | _ => none

def abandonConfirmCount : DeltaStatus → Nat
  | .candidate _ _ _ _ n => n
  | _ => 0

def retryCount : DeltaStatus → Nat
  | .candidate _ n _ _ _ => n
  | _ => 0

def divergenceCount : DeltaStatus → Nat
  | .candidate _ _ n _ _ => n
  | _ => 0

def timestamp : DeltaStatus → Time
  | .pending t _ _ => t
  | .candidate t _ _ _ _ => t
  | .canonical t => t
  | .retained t _ => t
  | .discarded t _ => t

/-- Record the client's abandon intent. A request already recorded is kept, so
retries cannot restart the quarantine. -/
def withAbandonRequested : DeltaStatus → Time → DeltaStatus
  | .candidate t r d at? n, now => .candidate t r d (some (at?.getD now)) n
  | s, _ => s

/-- Carry a recorded abandon request into a status that is about to overwrite
the stored row. -/
def withAbandonRequestPreservedFrom : DeltaStatus → Option Time → DeltaStatus
  | .candidate t r d none n, some stored => .candidate t r d (some stored) n
  | s, _ => s

def withIncrementedAbandonConfirm : DeltaStatus → DeltaStatus
  | .candidate t r d at? n => .candidate t r d at? (n + 1)
  | s => s

/-- The new timestamp is ignored: `timestamp` stays the submission's. -/
def withIncrementedRetry : DeltaStatus → Time → DeltaStatus
  | .candidate t r d at? n, _ => .candidate t (r + 1) d at? n
  | s, _ => s

/-- A divergent observation also resets the abandon-confirmation streak. -/
def withIncrementedDivergence : DeltaStatus → DeltaStatus
  | .candidate t r d at? _ => .candidate t r (d + 1) at? 0
  | s => s

def withResetDivergence : DeltaStatus → DeltaStatus
  | .candidate t r _ at? n => .candidate t r 0 at? n
  | s => s

/-! ### The counter writes keep a candidate's kind and its intent -/

@[simp] theorem isCandidate_withIncrementedAbandonConfirm (s : DeltaStatus) :
    s.withIncrementedAbandonConfirm.isCandidate = s.isCandidate := by cases s <;> rfl

@[simp] theorem isCandidate_withIncrementedRetry (s : DeltaStatus) (t : Time) :
    (s.withIncrementedRetry t).isCandidate = s.isCandidate := by cases s <;> rfl

@[simp] theorem isCandidate_withIncrementedDivergence (s : DeltaStatus) :
    s.withIncrementedDivergence.isCandidate = s.isCandidate := by cases s <;> rfl

@[simp] theorem isCandidate_withResetDivergence (s : DeltaStatus) :
    s.withResetDivergence.isCandidate = s.isCandidate := by cases s <;> rfl

@[simp] theorem abandonRequestedAt_withIncrementedAbandonConfirm (s : DeltaStatus) :
    s.withIncrementedAbandonConfirm.abandonRequestedAt = s.abandonRequestedAt := by cases s <;> rfl

@[simp] theorem abandonRequestedAt_withIncrementedRetry (s : DeltaStatus) (t : Time) :
    (s.withIncrementedRetry t).abandonRequestedAt = s.abandonRequestedAt := by cases s <;> rfl

@[simp] theorem abandonRequestedAt_withIncrementedDivergence (s : DeltaStatus) :
    s.withIncrementedDivergence.abandonRequestedAt = s.abandonRequestedAt := by cases s <;> rfl

@[simp] theorem abandonRequestedAt_withResetDivergence (s : DeltaStatus) :
    s.withResetDivergence.abandonRequestedAt = s.abandonRequestedAt := by cases s <;> rfl

@[simp] theorem isCandidate_withAbandonRequestPreservedFrom (s : DeltaStatus) (at? : Option Time) :
    (s.withAbandonRequestPreservedFrom at?).isCandidate = s.isCandidate := by
  unfold withAbandonRequestPreservedFrom; split <;> rfl

/-- The merged status carries an intent as soon as either side does; where both
do, it is the incoming one's. -/
theorem abandonRequestedAt_preserved (s : DeltaStatus) (at? : Option Time)
    (hs : s.isCandidate = true) :
    (s.withAbandonRequestPreservedFrom at?).abandonRequestedAt = s.abandonRequestedAt.or at? := by
  cases s with
  | candidate t r d own n => cases own <;> cases at? <;> rfl
  | _ => cases hs

theorem isCandidate_withAbandonRequested (s : DeltaStatus) (now : Time) :
    (s.withAbandonRequested now).isCandidate = s.isCandidate := by cases s <;> rfl

end DeltaStatus

/-- The delta object. The acknowledgment's signature fields and the dashboard
metadata are left out: nothing modelled reads them. -/
structure DeltaObject where
  nonce : Nonce
  prevCommitment : Commitment
  newCommitment : Option Commitment
  deltaPayload : Payload
  status : DeltaStatus
  deriving DecidableEq, Repr

end Guardian
