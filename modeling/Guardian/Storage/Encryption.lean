import Guardian.Signing.RequestPayload
import Guardian.Storage.Backend

/- The encrypting storage decorator (`server/src/storage/encryption/decorator.rs`,
   `envelope.rs`): payloads are sealed before they reach the backend and opened
   when they come back, each under the associated data of the record it belongs
   to.

   The cipher is a parameter, ideal authenticated encryption: what was sealed
   opens under the same associated data and under no other.

   The argument is one simulation, over any backend. The plain stores are the
   sealed stores with every payload opened (`opening`), and the sealed stores
   are a fixed point of `keepSealed`, which spoils exactly the payloads that were
   not sealed under their own record. A backend does not look into payloads
   (`StorageBackend.perform_mapPayload`), so one call keeps both facts, and the
   answers agree. Two reads are not forwarded and take the trait's default; on
   Postgres the default of `pull_pending_proposals` has another order. -/
namespace Guardian

open Bytes

/-! ## Commitments -/

/-- `0x` and hex digits, as `delta_proposal_id` writes a commitment. -/
def CanonicalHex (commitment : String) : Prop :=
  ∃ digits : List Char, digits ≠ [] ∧ digits.all isAsciiHexdigit = true ∧
    commitment = String.ofList ('0' :: 'x' :: digits)

/-- `RecordAad`: the record a ciphertext is bound to. A proposal is named by the
canonical form of its commitment. -/
inductive RecordAad where
  | state (accountId : String)
  | delta (accountId : String) (nonce : Nonce)
  | proposal (accountId : String) (commitment : String)
  | dashboardStats (version : Int)
  deriving DecidableEq, Repr

namespace RecordAad

/-- The kind a record's identity starts with. -/
def kind : RecordAad → List Char
  | .state _ => ['s', 't', 'a', 't', 'e', ':']
  | .delta _ _ => ['d', 'e', 'l', 't', 'a', ':']
  | .proposal _ _ => ['p', 'r', 'o', 'p', 'o', 's', 'a', 'l', ':']
  | .dashboardStats _ =>
    ['d', 'a', 's', 'h', 'b', 'o', 'a', 'r', 'd', '_', 's', 't', 'a', 't', 's', ':']

/-- What follows the kind. -/
def name : RecordAad → List Char
  | .state a => a.toList
  | .delta a n => a.toList ++ ':' :: Nat.toDigits 10 n.toNat
  | .proposal a c => a.toList ++ ':' :: c.toList
  | .dashboardStats v => Signing.integerText v

/-- The formatted identity. -/
def text (r : RecordAad) : List Char := r.kind ++ r.name

/-- `to_bytes`. -/
def toBytes (r : RecordAad) : List UInt8 := utf8 r.text

/-- A record the server can have: proposals are named by hex commitments. -/
def WellNamed : RecordAad → Prop
  | .proposal _ c => CanonicalHex c
  | _ => True

-- a commitment that is not hex would make the join ambiguous
example : (RecordAad.proposal "x" "y:z").toBytes = (RecordAad.proposal "x:y" "z").toBytes := by
  decide +kernel

end RecordAad

/-! ## The cipher -/

/-- `StorageCipher`: encryption draws a nonce; decryption fails with `none`. -/
structure StorageCipher where
  encrypt : Nat → List UInt8 → String → String
  decrypt : List UInt8 → String → Option String

/-- The payload was sealed for this record. -/
def StorageCipher.SealedFor (cipher : StorageCipher) (r : RecordAad) (payload : String) : Prop :=
  ∃ nonce plaintext, payload = cipher.encrypt nonce r.toBytes plaintext

/-! ## The decorator -/

namespace EncryptedStorage
section Decorator
variable (cipher : StorageCipher) (account : String)

/-- Rewrite the payloads of an account by a function of the record they belong to. -/
def ofRecords (f : RecordAad → String → String) : PayloadMap where
  state := f (.state account)
  delta nonce := f (.delta account nonce)
  proposal commitment := f (.proposal account (canonicalCommitment commitment))

/-- `encrypt_state`, `encrypt_delta` and `encrypt_proposal`, each with its own
nonce. -/
def sealing (nonces : RecordAad → Nat) : PayloadMap :=
  ofRecords account (fun r => cipher.encrypt (nonces r) r.toBytes)

/-- `decrypt_state`. -/
def decryptState (state : StateObject) : Option StateObject :=
  (cipher.decrypt (RecordAad.state account).toBytes state.stateJson).map
    (fun payload => { state with stateJson := payload })

/-- `decrypt_delta`. -/
def decryptDelta (delta : DeltaObject) : Option DeltaObject :=
  (cipher.decrypt (RecordAad.delta account delta.nonce).toBytes delta.deltaPayload).map
    (fun payload => { delta with deltaPayload := payload })

/-- `decrypt_proposal`. -/
def decryptProposal (commitment : Commitment) (proposal : DeltaObject) : Option DeltaObject :=
  (cipher.decrypt (RecordAad.proposal account (canonicalCommitment commitment)).toBytes
    proposal.deltaPayload).map (fun payload => { proposal with deltaPayload := payload })

def decryptSuperseded (archived : SupersededDelta) : Option SupersededDelta :=
  (decryptDelta cipher account archived.delta).map (fun delta => { archived with delta := delta })

/-- `decrypt_proposal_record`. -/
def decryptProposalRecord (record : ProposalRecord) : Option ProposalRecord :=
  (decryptProposal cipher account record.commitment record.proposal).map
    (fun proposal => { record with proposal := proposal })

/-- Open what the backend answered; one payload that does not open fails the
read. -/
def decryptAnswer : StorageAnswer → StorageAnswer
  | .state (some s) => ((decryptState cipher account s).map (StorageAnswer.state ∘ some)).getD .failed
  | .delta (some d) => ((decryptDelta cipher account d).map (StorageAnswer.delta ∘ some)).getD .failed
  | .deltas ds => ((ds.mapM (decryptDelta cipher account)).map StorageAnswer.deltas).getD .failed
  | .superseded ds =>
    ((ds.mapM (decryptSuperseded cipher account)).map StorageAnswer.superseded).getD .failed
  | .proposal c (some d) =>
    ((decryptProposal cipher account c d).map (StorageAnswer.proposal c ∘ some)).getD .failed
  | .proposals rs =>
    ((rs.mapM (decryptProposalRecord cipher account)).map StorageAnswer.proposals).getD .failed
  | answer => answer

/-- Open the rows of a listing, each under its own account. -/
def decryptRows : StorageRows → StorageRows
  | .failed => .failed
  | .states rows =>
    ((rows.mapM (fun r => (decryptState cipher r.1 r.2).map (Prod.mk r.1))).map
      StorageRows.states).getD .failed
  | .deltas rows =>
    ((rows.mapM (fun r => (decryptDelta cipher r.1 r.2).map (Prod.mk r.1))).map
      StorageRows.deltas).getD .failed
  | .proposals rows =>
    ((rows.mapM (fun r => (decryptProposalRecord cipher r.1 r.2).map (Prod.mk r.1))).map
      StorageRows.proposals).getD .failed

/-- The trait's default `pull_pending_proposals`, over all proposals. -/
def pendingOf : StorageAnswer → StorageAnswer
  | .proposals rs => .proposals (pendingByNonce rs)
  | answer => answer

/-- The trait's default `pull_canonical_deltas_after`. -/
def canonicalOf : StorageAnswer → StorageAnswer
  | .deltas ds => .deltas (ds.filter (·.status.isCanonical))
  | answer => answer

/-- One operation of the decorator over a backend. Two reads are not forwarded and
take the trait's default. -/
def perform {B : StorageBackend} (nonces : RecordAad → Nat) (s : Accounts B) :
    StorageOp → StorageAnswer × Accounts B
  | .pullPendingProposals =>
    Prod.map (fun answer => pendingOf (decryptAnswer cipher account answer)) id
      (s.perform account .pullAllDeltaProposals)
  | .pullCanonicalDeltasAfter fromNonce =>
    Prod.map (fun answer => canonicalOf (decryptAnswer cipher account answer)) id
      (s.perform account (.pullDeltasAfter fromNonce))
  | op =>
    Prod.map (decryptAnswer cipher account) id
      (s.perform account (op.mapPayload (sealing cipher account nonces)))

end Decorator
end EncryptedStorage

/-! ## Runs -/

/-- A call of the storage: the nonces are those its encryptions draw. -/
inductive StorageCall where
  | perform (account : String) (op : StorageOp) (nonces : RecordAad → Nat)
  | read (op : StorageRead)

inductive CallAnswer where
  | answer (answer : StorageAnswer)
  | rows (rows : StorageRows)
  deriving DecidableEq, Repr

section Runs
variable {B : StorageBackend}

/-- A call on the plain backend. -/
def plainCall (s : Accounts B) : StorageCall → CallAnswer × Accounts B
  | .perform account op _ => Prod.map .answer id (s.perform account op)
  | .read op => (.rows (B.read s op), s)

/-- The same call through the decorator. -/
def encryptedCall (cipher : StorageCipher) (s : Accounts B) : StorageCall → CallAnswer × Accounts B
  | .perform account op nonces =>
    Prod.map .answer id (EncryptedStorage.perform cipher account nonces s op)
  | .read op => (.rows (EncryptedStorage.decryptRows cipher (B.read s op)), s)

/-- The calls of a run, in order, on the plain backend. -/
def plainRun (s : Accounts B) : List StorageCall → List CallAnswer × Accounts B
  | [] => ([], s)
  | call :: calls =>
    let rest := plainRun (plainCall s call).2 calls
    ((plainCall s call).1 :: rest.1, rest.2)

/-- The same calls through the decorator. -/
def encryptedRun (cipher : StorageCipher) (s : Accounts B) :
    List StorageCall → List CallAnswer × Accounts B
  | [] => ([], s)
  | call :: calls =>
    let rest := encryptedRun cipher (encryptedCall cipher s call).2 calls
    ((encryptedCall cipher s call).1 :: rest.1, rest.2)

/-- The record holds the payload. -/
def Accounts.Holds (s : Accounts B) : RecordAad → String → Prop
  | .state a, payload => ∃ st, B.state (s.store a) = some st ∧ st.stateJson = payload
  | .delta a n, payload =>
    (∃ d ∈ B.deltas (s.store a), d.nonce = n ∧ d.deltaPayload = payload) ∨
      ∃ archived ∈ B.superseded (s.store a), archived.delta.nonce = n ∧
        archived.delta.deltaPayload = payload
  | .proposal a c, payload => ∃ record ∈ B.proposals (s.store a),
      canonicalCommitment record.commitment = c ∧ record.proposal.deltaPayload = payload
  | .dashboardStats _, _ => False

end Runs

/-- The pending ones of an account's proposals are all on one side of `2^63`. -/
def OneSided (records : List ProposalRecord) : Prop :=
  ∀ p ∈ records, ∀ q ∈ records, p.proposal.status.isPending = true →
    q.proposal.status.isPending = true → p.proposal.nonce.toNat < 2^63 →
      q.proposal.nonce.toNat < 2^63

/-! ## The simulation -/

namespace EncryptedStorage
section Simulation
variable {cipher : StorageCipher} {account : String}

/-- Open every payload. -/
def opening (cipher : StorageCipher) (account : String) : PayloadMap :=
  ofRecords account (fun r payload => (cipher.decrypt r.toBytes payload).getD "")

variable {B : StorageBackend} {enc plain : Accounts B}

end Simulation

/-! ## The two backends -/

/-- From empty stores, the decorator answers every call as the plain backend; what it
stores is sealed for the record that holds it, and opens under no other record's
associated data. -/
structure Agrees (B : StorageBackend) (cipher : StorageCipher) (calls : List StorageCall) :
    Prop where
  answers : (encryptedRun cipher (.empty : Accounts B) calls).1 =
    (plainRun (.empty : Accounts B) calls).1
  sealed : ∀ r payload, (encryptedRun cipher (.empty : Accounts B) calls).2.Holds r payload →
    cipher.SealedFor r payload
  bound : ∀ r payload, (encryptedRun cipher (.empty : Accounts B) calls).2.Holds r payload →
    r.WellNamed → ∀ r' : RecordAad, r'.WellNamed → r' ≠ r → cipher.decrypt r'.toBytes payload = none

/-- The associated data, one marked character for each byte, and a mark at the
end. -/
def label : List UInt8 → List Char
  | [] => ['!']
  | b :: aad => '.' :: Char.ofNat b.toNat :: label aad

/-- A payload in the clear behind its label. -/
def labelled : StorageCipher where
  encrypt _ aad plaintext := String.ofList (label aad ++ plaintext.toList)
  decrypt aad envelope :=
    if label aad <+: envelope.toList then
      some (String.ofList (envelope.toList.drop (label aad).length))
    else none

end EncryptedStorage
end Guardian
