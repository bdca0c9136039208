import Guardian.Lib.Regex

/- The retry classifiers of the two SDKs (`shared/src/retry.rs`,
   `miden-multisig-client/src/retry/classify.ts`).

   Both walk an error's chain of causes. Each link is read for an HTTP status in its
   text, for the name of a gRPC code in its text without punctuation, and for typed
   evidence; permanent evidence anywhere means the error is permanent, and without any
   evidence some wordings are taken as transient. The Rust side scans for the status
   by hand, the TypeScript side with a regular expression.

   A text is the list of its characters, and a chain is finite: the TypeScript walk
   ends where a cause comes up again. Of the JavaScript values a code can be, the
   integers and the strings are kept: any other is read as no code. -/
namespace Guardian.Retry

abbrev Text := List Char

inductive StructuredEvidence where
  | transient
  | permanent
  | indeterminate
  deriving DecidableEq, Repr

/-- `str::contains`, `String.prototype.includes`. -/
def contains (message signal : Text) : Bool := decide (signal <:+: message)

/-! ## Rust -/

namespace Rust

structure EvidenceLedger where
  transient : Bool := false
  permanent : Bool := false
  deriving DecidableEq, Repr

namespace EvidenceLedger

def note (ledger : EvidenceLedger) : StructuredEvidence → EvidenceLedger
  | .transient => { ledger with transient := true }
  | .permanent => { ledger with permanent := true }
  | .indeterminate => ledger

def verdict (ledger : EvidenceLedger) : Option StructuredEvidence :=
  if ledger.permanent then some .permanent
  else if ledger.transient then some .transient
  else none

end EvidenceLedger

/-- `u8::is_ascii_whitespace`. -/
def isAsciiWhitespace (c : Char) : Bool := c ∈ [' ', '\t', '\n', '\x0c', '\r']

/-- `grpc_code_evidence`. -/
def grpcCodeEvidence (code : Int) : StructuredEvidence :=
  if code ∈ [1, 4, 8, 14] then .transient
  else if code ∈ [3, 5, 6, 7, 9, 10, 11, 12, 13, 15, 16] then .permanent
  else .indeterminate

/-- `str::match_indices` of a marker: what is before each match, the nearest character
    first, and what is after it. -/
def matchIndices (marker : Text) (before rest : Text) : List (Text × Text) :=
  match rest with
  | [] => []
  | c :: tail =>
    if marker.isPrefixOf (c :: tail) ∧ marker ≠ [] then
      (before, (c :: tail).drop marker.length) ::
        matchIndices marker (marker.reverse ++ before) ((c :: tail).drop marker.length)
    else matchIndices marker (c :: before) tail
termination_by rest.length
decreasing_by
  · rename_i h
    have hpos : 0 < marker.length := List.length_pos_of_ne_nil h.2
    rw [List.length_drop, List.length_cons]
    omega
  · simp

/-- Past white space, and past `code` and white space where it follows some. -/
def skipCode (text : Text) : Text :=
  let spaced := text.dropWhile isAsciiWhitespace
  if spaced.length < text.length ∧ "code".toList.isPrefixOf spaced then
    (spaced.drop 4).dropWhile isAsciiWhitespace
  else spaced

/-- Past a colon and white space. -/
def skipColon : Text → Text
  | ':' :: rest => rest.dropWhile isAsciiWhitespace
  | text => text

/-- The number of three digits and no more. -/
def threeDigits (text : Text) : Option Nat :=
  let digits := text.takeWhile Char.isDigit
  if digits.length ≠ 3 then none
  else if (text.dropWhile Char.isDigit).head?.any (fun c => c.isAlpha || c == '_') then none
  else some (Nat.ofDigitChars 10 digits 0)

/-- `leading_status`, on the text after the marker. -/
def leadingStatus (text : Text) : Option Nat := threeDigits (skipColon (skipCode text))

/-- One match of a marker in the loop of `http_evidence`. -/
def noteStatus (ledger : EvidenceLedger) (found : Text × Text) : EvidenceLedger :=
  if found.1.head?.any (fun c => c.isAlphanum || c == '_') then ledger
  else
    match leadingStatus found.2 with
    | none => ledger
    | some status =>
      if 400 ≤ status ∧ status ≤ 599 then
        ledger.note (if status ∈ [408, 429, 502, 503, 504] then .transient else .permanent)
      else ledger

/-- `STATUS_MARKERS`. -/
def statusMarkers : List Text := ["http status", "http", "status"].map String.toList

/-- `http_evidence`. -/
def httpEvidence (message : Text) : Option StructuredEvidence :=
  ((statusMarkers.flatMap fun marker => matchIndices marker [] message).foldl noteStatus {}).verdict

def grpcPatterns : List (Text × Int) :=
  [("grpccodecancelled", 1), ("grpccodecanceled", 1), ("grpccodedeadlineexceeded", 4),
    ("grpccodeunavailable", 14), ("grpccoderesourceexhausted", 8), ("grpccodeinvalidargument", 3),
    ("grpccodefailedprecondition", 9), ("grpccodepermissiondenied", 7),
    ("grpccodeunauthenticated", 16), ("grpccodenotfound", 5), ("grpccodealreadyexists", 6),
    ("grpccodeoutofrange", 11), ("grpccodeunimplemented", 12), ("grpccodeaborted", 10),
    ("grpccodeinternal", 13), ("grpccodedataloss", 15), ("grpccodeunknown", 2)].map
    fun p => (p.1.toList, p.2)

/-- `flattened_grpc_evidence`. -/
def flattenedGrpcEvidence (message : Text) : Option StructuredEvidence :=
  let normalized := message.filter Char.isAlphanum
  (grpcPatterns.foldl (fun ledger p =>
    if contains normalized p.1 then ledger.note (grpcCodeEvidence p.2) else ledger)
    ({} : EvidenceLedger)).verdict

/-- `flattened_transient`: the last-resort wordings. -/
def flattenedTransient (message : Text) : Bool :=
  (["cancelled", "canceled", "deadline exceeded", "timeout", "unavailable", "resource exhausted",
    "request timeout", "too many requests", "rate limited", "rate limit", "bad gateway",
    "service unavailable", "gateway timeout", "i/o timeout", "io timeout", "connection reset",
    "broken pipe"].map String.toList).any (contains message)

def noteSome (ledger : EvidenceLedger) : Option StructuredEvidence → EvidenceLedger
  | some evidence => ledger.note evidence
  | none => ledger

/-- A link of the chain: its text, and what `link_evidence` says of it. -/
structure Link where
  message : Text
  evidence : StructuredEvidence
  deriving DecidableEq, Repr

/-- The ledger of one link. -/
def linkLedger (message : Text) (evidence : StructuredEvidence) : EvidenceLedger :=
  noteSome (noteSome (EvidenceLedger.note {} evidence) (httpEvidence message))
    (flattenedGrpcEvidence message)

/-- The loop of `is_transient_error_with`. -/
def walk (extra : List Text) : Bool → Bool → List Link → Bool
  | hasTransient, hasFallback, [] => hasTransient || hasFallback
  | hasTransient, hasFallback, link :: causes =>
    let message := link.message.map Char.toLower
    let fallback := hasFallback || flattenedTransient message || extra.any (contains message)
    match (linkLedger message link.evidence).verdict with
    | some .permanent => false
    | some _ => walk extra true fallback causes
    | none => walk extra hasTransient fallback causes

/-- `is_transient_error_with`. -/
def isTransientErrorWith (chain : List Link) (extra : List Text) : Bool :=
  walk extra false false chain

end Rust

/-! ## TypeScript -/

namespace TypeScript

def transientGrpc : List Text :=
  ["cancelled", "canceled", "deadlineexceeded", "unavailable", "resourceexhausted"].map String.toList

def permanentGrpc : List Text :=
  ["invalidargument", "failedprecondition", "permissiondenied", "unauthenticated", "notfound",
    "alreadyexists", "outofrange", "unimplemented", "aborted", "internal", "dataloss"].map
    String.toList

def numericGrpcCodes : List (Int × Text) :=
  [(0, "ok"), (1, "cancelled"), (2, "unknown"), (3, "invalidargument"), (4, "deadlineexceeded"),
    (5, "notfound"), (6, "alreadyexists"), (7, "permissiondenied"), (8, "resourceexhausted"),
    (9, "failedprecondition"), (10, "aborted"), (11, "outofrange"), (12, "unimplemented"),
    (13, "internal"), (14, "unavailable"), (15, "dataloss"), (16, "unauthenticated")].map
    fun p => (p.1, p.2.toList)

/-- The class `\s`. -/
def isSpace (c : Char) : Bool :=
  c.toNat ∈ [0x9, 0xa, 0xb, 0xc, 0xd, 0x20, 0xa0, 0x1680, 0x2028, 0x2029, 0x202f, 0x205f, 0x3000,
    0xfeff] || (0x2000 ≤ c.toNat && c.toNat ≤ 0x200a)

/-- The class `\w`. -/
def isWord (c : Char) : Bool := c.isAlphanum || c == '_'

inductive Code where
  | number (n : Int)
  | text (s : Text)
  deriving DecidableEq, Repr

/-- `normalizeCode`. -/
def normalizeCode : Code → Option Text
  | .number n => (numericGrpcCodes.find? (·.1 == n)).map (·.2)
  | .text s => some ((s.filter fun c => !(isSpace c || c == '_' || c == '-')).map Char.toLower)

/-- `grpcEvidence`. -/
def grpcEvidence (value : Option Code) : Option StructuredEvidence :=
  match value.bind normalizeCode with
  | none => none
  | some code =>
    if code ∈ transientGrpc then some .transient
    else if code ∈ permanentGrpc then some .permanent
    else if code = "unknown".toList ∨ code = "ok".toList then some .indeterminate
    else none

/-- `httpEvidence`. -/
def httpEvidence (value : Int) : Option StructuredEvidence :=
  if value < 400 ∨ 599 < value then none
  else if value ∈ [408, 429, 502, 503, 504] then some .transient
  else some .permanent

open Regex.Pattern in
/-- The part `(?:\s+code)?\s*:?\s*(\d{3})\b` of the pattern. -/
def tailPattern : Regex.Pattern :=
  seq (opt (seq (oneOf isSpace) (seq (many isSpace) (word "code".toList))))
    (seq (many isSpace) (seq (opt (word [':'])) (seq (many isSpace)
      (seq (group (seq (oneOf Char.isDigit) (seq (oneOf Char.isDigit) (oneOf Char.isDigit))))
        (boundary isWord)))))

open Regex.Pattern in
/-- The part `(?:\bhttp(?:\s+status)?|\bstatus)` of the pattern. -/
def markerPattern : Regex.Pattern :=
  alt (seq (boundary isWord) (seq (word "http".toList)
      (opt (seq (oneOf isSpace) (seq (many isSpace) (word "status".toList))))))
    (seq (boundary isWord) (word "status".toList))

def statusPattern : Regex.Pattern := .seq markerPattern tailPattern

/-- The loop of `httpMessageEvidence` and of `grpcMessageEvidence`: permanent evidence
    ends it. -/
def firstPermanent : Bool → List (Option StructuredEvidence) → Option StructuredEvidence
  | hasTransient, [] => if hasTransient then some .transient else none
  | hasTransient, evidence :: rest =>
    if evidence = some .permanent then some .permanent
    else firstPermanent (hasTransient || evidence == some .transient) rest

/-- `httpMessageEvidence`. -/
def httpMessageEvidence (message : Text) : Option StructuredEvidence :=
  firstPermanent false ((Regex.matchAll statusPattern [] message).map fun digits =>
    httpEvidence (Nat.ofDigitChars 10 digits 0))

/-- `GRPC_MESSAGE_TOKENS`. -/
def grpcMessageTokens : List (Text × StructuredEvidence) :=
  transientGrpc.map (fun code => ("grpccode".toList ++ code, .transient)) ++
    permanentGrpc.map (fun code => ("grpccode".toList ++ code, .permanent))

/-- `grpcMessageEvidence`. -/
def grpcMessageEvidence (message : Text) : Option StructuredEvidence :=
  let normalized := message.filter fun c => c.isLower || c.isDigit
  firstPermanent false ((grpcMessageTokens.filter fun t => contains normalized t.1).map
    fun t => some t.2)

/-- `flattenedTransient`: the last-resort wordings. -/
def flattenedTransient (message : Text) : Bool :=
  (["cancelled", "canceled", "deadline exceeded", "timeout", "unavailable", "resource exhausted",
    "request timeout", "too many requests", "rate limited", "rate limit", "bad gateway",
    "service unavailable", "gateway timeout", "i/o timeout", "io timeout", "connection reset",
    "broken pipe"].map String.toList).any (contains message)

/-- An `ErrorRecord` of the chain. -/
structure ErrorRecord where
  message : Text
  code : Option Code := none
  status : Option Int := none
  statusCode : Option Int := none
  deriving DecidableEq, Repr

/-- The evidence of one record, in the order it is looked at. -/
def recordEvidence (record : ErrorRecord) : List (Option StructuredEvidence) :=
  let message := record.message.map Char.toLower
  [grpcEvidence record.code, record.status.bind httpEvidence, record.statusCode.bind httpEvidence,
    httpMessageEvidence message, grpcMessageEvidence message]

/-- `isTransientError`. -/
def isTransientError (chain : List ErrorRecord) (extra : List Text) : Bool :=
  let evidence := chain.flatMap recordEvidence
  if evidence.any (· == some .permanent) then false
  else if evidence.any (· == some .transient) then true
  else chain.any fun record =>
    let message := record.message.map Char.toLower
    flattenedTransient message || extra.any (contains message)

end TypeScript

/-! ## The texts compared -/

/-- Printable ASCII, tab, line feed, form feed and carriage return. -/
def Plain (c : Char) : Prop := (32 ≤ c.toNat ∧ c.toNat < 127) ∨ c ∈ ['\t', '\n', '\x0c', '\r']

end Guardian.Retry
