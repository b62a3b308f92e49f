import PredictionIndexer.ForStd.JsonText
import PredictionIndexer.Splices.Names

/-!
# The seal validator

`archive/common/seal.py` (`read_sealed_segment`, `validate_seal_document`,
`logical_matches_seal`): everything about a seal that is decidable without reading its segment,
checked against itself and against the path it sits at, and the identity of the bytes, which
`encoder/compression.py` measures, against what the seal says of it. The values a message quotes
are left out of it.
-/

namespace PredictionIndexer.Archive

open Splices (nanoseconds parseSegmentName dateDirectory dataSuffix beforeSuffix)

/-- The last three components of a segment's path. -/
structure DataPath where
  laneDirectory : String
  dateDirectory : String
  name : String
deriving DecidableEq

def requiredFields : List String :=
  ["seal_version", "lane_id", "window_start_ns", "window_end_ns", "data_file", "byte_length",
    "line_count", "sha256", "first_delivery_index", "last_delivery_index", "first_visible_ns",
    "last_visible_ns", "visible_non_decreasing", "delivery_index_dense", "segment_id",
    "segment_index", "seal_reason", "ordering_status", "epochs", "repaired_bytes", "created_ns",
    "writer_version"]

/-- `SealError`. -/
def invalid {α : Type} (detail : String) : Except String α := .error ("invalid seal: " ++ detail)

def refuse (condition : Bool) (detail : String) : Except String Unit :=
  if condition then invalid detail else .ok ()

theorem refuse_eq_ok {condition : Bool} {detail : String} {u : Unit} :
    refuse condition detail = .ok u ↔ condition = false := by
  cases condition <;> simp [refuse, invalid]

/-- `document[field]`, of a document that has all required fields. -/
def get (document : List (String × Json)) (field : String) : Json :=
  (Json.field? document field).getD .null

/-- `_integer`. -/
def integer (document : List (String × Json)) (field : String) : Except String Nat :=
  match get document field with
  | .number n => if n < 0 then invalid (field ++ " is not a non-negative integer") else .ok n.toNat
  | _ => invalid (field ++ " is not a non-negative integer")

/-- `_optional_integer`. -/
def optionalInteger (document : List (String × Json)) (field : String) :
    Except String (Option Nat) :=
  match get document field with
  | .null => .ok none
  | .number n =>
    if n < 0 then invalid (field ++ " is not a non-negative integer or null")
    else .ok (some n.toNat)
  | _ => invalid (field ++ " is not a non-negative integer or null")

/-- A lowercase hexadecimal digit. -/
def isHexDigit (c : Char) : Bool := "0123456789abcdef".toList.contains c

/-- `_hex_digest`. -/
def hexDigest (document : List (String × Json)) (field : String) : Except String String :=
  match get document field with
  | .string value =>
    if value.length ≠ 64 then invalid (field ++ " is not a 64-character digest")
    else if value.toList.any fun c => !isHexDigit c then
      invalid (field ++ " is not lowercase hexadecimal")
    else .ok value
  | _ => invalid (field ++ " is not a 64-character digest")

/-- A nonempty text. -/
def token (document : List (String × Json)) (field : String) : Except String Unit :=
  match get document field with
  | .string value => refuse value.isEmpty (field ++ " is required")
  | .illFormed codes => refuse codes.isEmpty (field ++ " is required")
  | _ => invalid (field ++ " is required")

/-- A number a document gives, in Python's equality: `True` and `1.0` are one. -/
def equalsNumber (n : Int) : Json → Bool
  | .number m => m = n
  | .float value => value = some (n : ℚ)
  | .bool b => (if b then 1 else 0) = n
  | _ => false

def equalsText (text : String) : Json → Bool
  | .string s => s = text
  | _ => false

def text? : Json → Option String
  | .string s => some s
  | _ => none

def isText : Json → Bool
  | .string _ => true
  | .illFormed _ => true
  | _ => false

/-- The list of connection epochs. -/
def epochList (document : List (String × Json)) : Except String (List Json) :=
  match get document "epochs" with
  | .array items =>
    if items.all isText then .ok items else invalid "epochs must be a list of connection epochs"
  | _ => invalid "epochs must be a list of connection epochs"

/-- Two flags. -/
def flags (document : List (String × Json)) : Except String (Bool × Bool) :=
  match get document "visible_non_decreasing", get document "delivery_index_dense" with
  | .bool nonDecreasing, .bool dense => .ok (nonDecreasing, dense)
  | _, _ => invalid "ordering flags must be booleans"

/-- The bounds of an empty and of a nonempty segment. -/
def validateBounds {α : Type} (start end_ byteLength lineCount : Nat) (epochs : List α)
    (dense : Bool) (firstDelivery lastDelivery firstVisible lastVisible : Option Nat) :
    Except String Unit :=
  if lineCount = 0 then
    refuse (byteLength ≠ 0 || firstDelivery.isSome || lastDelivery.isSome || firstVisible.isSome ||
      lastVisible.isSome || !epochs.isEmpty) "empty segment carries record bounds"
  else match firstDelivery, lastDelivery, firstVisible, lastVisible with
    | some firstDelivery, some lastDelivery, some firstVisible, some lastVisible => do
      refuse epochs.isEmpty "non-empty segment has no connection epochs"
      refuse (firstDelivery > lastDelivery) "delivery bounds are inverted"
      refuse (dense && lastDelivery - firstDelivery + 1 ≠ lineCount)
        "dense delivery bounds disagree with line_count"
      refuse (firstVisible < start || lastVisible ≥ end_)
        "records span outside the declared window"
    | _, _, _, _ => invalid "non-empty segment is missing record bounds"

/-- `_validate_path_coherence`. -/
def validatePathCoherence (document : List (String × Json)) (path : DataPath)
    (start segmentIndex : Nat) : Except String Unit := do
  let some name := parseSegmentName path.name | invalid "unparseable segment name"
  refuse (name.windowStartNs ≠ start) "segment name places it elsewhere than window_start_ns"
  refuse (name.segmentIndex ≠ segmentIndex) "segment name index does not match segment_index"
  refuse (!equalsText name.segmentId (get document "segment_id"))
    "segment name id does not match segment_id"
  refuse (path.dateDirectory ≠ dateDirectory start) "segment sits under another date"
  refuse (!((text? (get document "lane_id")).any fun laneId =>
    path.laneDirectory = "lane=" ++ laneId)) "segment sits under another lane"

/-- `validate_seal_document`. -/
def validateSealDocument (document : Json) (lane : String) (path : DataPath) :
    Except String Unit := do
  let .object document := document | invalid "seal is not an object"
  let missing := requiredFields.filter fun field => (Json.field? document field).isNone
  refuse (!missing.isEmpty) ("missing fields " ++ ", ".intercalate missing)
  refuse (!equalsNumber 1 (get document "seal_version")) "unsupported seal_version"
  refuse (!equalsText lane (get document "lane_id")) "lane_id does not match lane"
  refuse (!equalsText path.name (get document "data_file")) "data_file does not name the data"
  let start ← integer document "window_start_ns"
  let end_ ← integer document "window_end_ns"
  refuse (start ≥ end_) "window_start_ns must precede window_end_ns"
  let byteLength ← integer document "byte_length"
  let lineCount ← integer document "line_count"
  let segmentIndex ← integer document "segment_index"
  let _ ← integer document "repaired_bytes"
  let _ ← integer document "created_ns"
  let writerVersion ← integer document "writer_version"
  refuse (writerVersion = 0) "writer_version is required"
  let _ ← hexDigest document "sha256"
  let _ ← token document "segment_id"
  let _ ← token document "seal_reason"
  let epochs ← epochList document
  let (nonDecreasing, dense) ← flags document
  refuse (!equalsText (if nonDecreasing then "ok" else "visible_clock_regression")
    (get document "ordering_status")) "ordering_status disagrees with visible_non_decreasing"
  let firstDelivery ← optionalInteger document "first_delivery_index"
  let lastDelivery ← optionalInteger document "last_delivery_index"
  let firstVisible ← optionalInteger document "first_visible_ns"
  let lastVisible ← optionalInteger document "last_visible_ns"
  validateBounds start end_ byteLength lineCount epochs dense firstDelivery lastDelivery firstVisible
    lastVisible
  validatePathCoherence document path start segmentIndex

/-- `read_sealed_segment`, of a sidecar that can be read. -/
def readSealedSegment (limits : JsonText.Limits) (lane : String) (path : DataPath)
    (encoded : List Char) : Except String Json := do
  refuse (beforeSuffix dataSuffix path.name).isNone "not a segment path"
  let some document := JsonText.loads limits encoded | invalid "not JSON"
  validateSealDocument document lane path
  pure document

/-! ## The identity of the bytes -/

structure LogicalIdentity where
  sha256 : String
  byteLength : Nat
  lineCount : Nat
deriving DecidableEq

/-- The logical identity `encode_stream` measures. It refuses a last line without its end. -/
def measure (digest : List UInt8 → String) (content : List UInt8) :
    Except String LogicalIdentity :=
  if content = [] ∨ content.getLast? = some 10 then
    .ok ⟨digest content, content.length, content.count 10⟩
  else .error "non-empty NDJSON payload does not end in LF"

/-- `logical_matches_seal`. -/
def logicalMatchesSeal (logical : LogicalIdentity) (document : List (String × Json)) :
    Except String Unit := do
  let byteLength ← integer document "byte_length"
  refuse (logical.byteLength ≠ byteLength) "byte length is not the claimed one"
  let lineCount ← integer document "line_count"
  refuse (logical.lineCount ≠ lineCount) "line count is not the claimed one"
  refuse (!equalsText logical.sha256 (get document "sha256")) "sha256 is not the sealed one"

/-- What the archiver asks of a segment before it publishes it. -/
def validateSegment (digest : List UInt8 → String) (limits : JsonText.Limits) (lane : String)
    (path : DataPath) (encoded : List Char) (content : List UInt8) : Except String Unit := do
  let document ← readSealedSegment limits lane path encoded
  let logical ← measure digest content
  match document with
  | .object fields => logicalMatchesSeal logical fields
  | _ => invalid "seal is not an object"

end PredictionIndexer.Archive
