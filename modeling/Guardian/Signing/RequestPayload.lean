import Guardian.Lib.Bytes
import Guardian.Lib.Json

/- The bytes of a signed request body, as the server computes them
   (auth_request_payload.rs) and as the TypeScript client does (auth-request.ts).

   Both write the body as compact JSON after sorting the keys of every object;
   serde_json and JSON.stringify escape the same characters in the same way, so
   both texts are `Json.write`. They differ in what an object is. On the server
   it is a map, filled in the order of the sorted keys. In JavaScript it lists
   its array indices first, in ascending order, and then its other keys in the
   order they were added; keys sort by `localeCompare`, of which we know that it
   is a total preorder; and an assignment to `__proto__` adds no key.

   `client_bytes_eq_iff` says for which bodies the two agree. -/
namespace Guardian.Signing
open Json Bytes

inductive SignedOperation where
  | executeDeltaProposal
  deriving DecidableEq, Repr

def SignedOperation.tag : SignedOperation → List UInt8
  | .executeDeltaProposal => utf8 "guardian.ExecuteDeltaProposal\x00".toList

section Server
variable {N : Type}

/-- The entries of an object, by key. -/
def sortKeys (entries : List (String × Value N)) : List (String × Value N) :=
  entries.insertionSort fun a b => a.1 ≤ b.1

def canonicalizeJson (value : Value N) : Value N := arrange sortKeys value

/-- The bytes `from_json_value` hashes. -/
def jsonBytes (F : NumberText N) (value : Value N) : List UInt8 :=
  utf8 (write F (canonicalizeJson value))

/-- The bytes that are signed: `from_json_value` without an operation,
`for_operation_json_value` with one. -/
def signedBytes (F : NumberText N) (operation : Option SignedOperation) (value : Value N) :
    List UInt8 :=
  match operation with
  | none => jsonBytes F value
  | some operation => operation.tag ++ jsonBytes F value

end Server

/-! ## The TypeScript client -/

namespace Client
variable {N : Type}

/-- The number a key is the canonical decimal of, where it is an array index. -/
def arrayIndex (key : String) : Option Nat :=
  let n := Nat.ofDigitChars 10 key.toList 0
  if Nat.toDigits 10 n = key.toList ∧ n < 2 ^ 32 - 1 then some n else none

/-- Whether an object may list `a` before `b`. -/
def listsBefore (a b : String) : Bool :=
  match arrayIndex a, arrayIndex b with
  | some m, some n => m ≤ n
  | none, some _ => false
  | _, none => true

/-- The own keys of an object with their values, as `Object.entries` and `JSON.stringify`
list them; the argument has them in the order they were added. -/
def listed (entries : List (String × Value N)) : List (String × Value N) :=
  entries.insertionSort fun a b => listsBefore a.1 b.1

/-- `JSON.parse(JSON.stringify(value))`: the keys are added as they were listed. -/
def normalizeJson (value : Value N) : Value N := arrange listed value

/-- `entries.sort(([left], [right]) => left.localeCompare(right))`, which is stable. -/
def sortEntries (localeCompare : String → String → Ordering) (entries : List (String × Value N)) :
    List (String × Value N) :=
  entries.insertionSort fun a b => (localeCompare a.1 b.1).isLE

/-- The loop `normalized[key] = item`: an assignment to `__proto__` calls a setter. -/
def assign (entries : List (String × Value N)) : List (String × Value N) :=
  entries.filter fun e => e.1 ≠ "__proto__"

/-- The entries of an object as its canonical form lists them. -/
def canonicalEntries (localeCompare : String → String → Ordering)
    (entries : List (String × Value N)) : List (String × Value N) :=
  listed (assign (sortEntries localeCompare (listed entries)))

def canonicalizeJson (localeCompare : String → String → Ordering) (value : Value N) : Value N :=
  arrange (canonicalEntries localeCompare) value

def canonicalJsonOf (F : NumberText N) (localeCompare : String → String → Ordering)
    (requestPayload : Value N) : List Char :=
  write F (canonicalizeJson localeCompare (normalizeJson requestPayload))

def operationTag : SignedOperation → List Char
  | .executeDeltaProposal => "guardian.ExecuteDeltaProposal\x00".toList

/-- `toBytes` of `fromRequest` (no operation) and of `forOperation`. -/
def toBytes (F : NumberText N) (localeCompare : String → String → Ordering)
    (operation : Option SignedOperation) (requestPayload : Value N) : List UInt8 :=
  utf8 ((operation.map operationTag).getD [] ++ canonicalJsonOf F localeCompare requestPayload)

end Client

/-! ## Integers -/

/-- An integer that a JavaScript number holds exactly. -/
abbrev SafeInteger := { n : Int // n.natAbs < 2 ^ 53 }

def integerText (n : Int) : List Char :=
  if n < 0 then '-' :: Nat.toDigits 10 n.natAbs else Nat.toDigits 10 n.natAbs

theorem isDigit_of_mem_decimal {n : Nat} {c : Char} (h : c ∈ Nat.toDigits 10 n) : c.isDigit = true :=
  Nat.isDigit_of_mem_toDigits (by decide) (by decide) h

theorem decimal_injective {m n : Nat} (h : Nat.toDigits 10 m = Nat.toDigits 10 n) : m = n := by
  rw [← Nat.ofDigitChars_ten_toDigits (n := m), h, Nat.ofDigitChars_ten_toDigits]

theorem decimal_ne_minus {n : Nat} {r : List Char} : Nat.toDigits 10 n ≠ '-' :: r := by
  intro h
  have hdigit := isDigit_of_mem_decimal (n := n) (c := '-') (by rw [h]; exact List.mem_cons_self)
  exact absurd hdigit (by decide)

theorem integerText_injective {a b : Int} (h : integerText a = integerText b) : a = b := by
  unfold integerText at h
  split at h <;> split at h
  · have habs := decimal_injective (List.cons.inj h).2
    omega
  · exact absurd h.symm decimal_ne_minus
  · exact absurd h decimal_ne_minus
  · have habs := decimal_injective h
    omega

/-- Safe integers are written in decimal by both. -/
def integers : NumberText SafeInteger where
  text n := integerText n
  injective h := Subtype.ext (integerText_injective h)
  nonempty n := by
    unfold integerText
    split
    · simp
    · exact Nat.toDigits_ne_nil
  chars n c hc := by
    unfold integerText at hc
    split at hc
    · rcases List.mem_cons.mp hc with rfl | hc
      · rfl
      · simp [isNumberChar, isDigit_of_mem_decimal hc]
    · simp [isNumberChar, isDigit_of_mem_decimal hc]

/-- A request body: no object of a JavaScript value or of a `serde_json::Value` has one key
twice. -/
structure Body (N : Type) where
  value : Value N
  distinct : Distinct value

end Guardian.Signing
