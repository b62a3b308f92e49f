import PredictionIndexer.Continuity.Envelope
import PredictionIndexer.ForStd.JsonWriter
import PredictionIndexer.ForStd.Utf8

/-!
# Writing envelopes

`splices/common/envelope.py`: one record of a splice, checked and written as one line. Integers
are Python's and have no upper bound; text may hold half of a surrogate pair.
-/

namespace PredictionIndexer.Splices.Envelope

open JsonText
open Continuity (SourceCursor Venue Stream RecordKind)

def envelopeVersion : Int := 2

def envelopeFieldsV1 : List String :=
  ["delivery_index", "record_id", "visible_ns", "venue", "stream", "connection_epoch",
    "local_counter", "source_cursor", "kind", "raw_payload"]

def envelopeFieldsV2 : List String :=
  ["envelope_version", "delivery_index", "record_id", "visible_ns", "monotonic_ns", "venue",
    "stream", "connection_epoch", "local_counter", "source_cursor", "kind", "raw_payload"]

/-- An argument as a caller may pass it. -/
inductive Value where
  | none
  | bool (b : Bool)
  | int (n : Int)
  | str (runes : List Rune)
deriving DecidableEq

/-- `type(value).__name__`. -/
def Value.typeName : Value → String
  | none => "NoneType"
  | bool _ => "bool"
  | int _ => "int"
  | str _ => "str"

/-- What is raised, with what its message names. -/
inductive EnvelopeError where
  | notInteger (field typeName : String)
  | negative (field : String) (value : Int)
  | notNonEmptyString (field : String)
  | notAscii (field : String) (text : List Rune)
  | quotesOrBackslashes (field : String) (text : List Rune)
  | controlCharacters (field : String) (text : List Rune)
  | payloadNotString (typeName : String)
  | carriesMonotonic
  | requiresMonotonic
  | unsupportedVersion (version : Int)
  | fieldOrderDrifted (fields : List String)
  | containsNewline
deriving DecidableEq

/-! ## Checks -/

/-- `_uint`. -/
def uint (value : Value) (field : String) : Except EnvelopeError Nat :=
  match value with
  | .int n => if n < 0 then .error (.negative field n) else .ok n.toNat
  | value => .error (.notInteger field value.typeName)

/-- `_token`. -/
def token (value : Value) (field : String) : Except EnvelopeError (List Rune) :=
  match value with
  | .str runes => if runes.isEmpty then .error (.notNonEmptyString field) else .ok runes
  | _ => .error (.notNonEmptyString field)

/-- One character of `str.isascii`. -/
def isAscii : Rune → Bool
  | .char c => c.toNat < 128
  | .surrogate _ => false

/-- `_identifier`. -/
def identifier (value : Value) (field : String) : Except EnvelopeError (List Rune) := do
  let text ← token value field
  if !text.all isAscii then .error (.notAscii field text)
  else if text.any fun r => r = .char '"' || r = .char '\\' then
    .error (.quotesOrBackslashes field text)
  else if text.any fun r => r.code < 0x20 || r.code = 0x7f then
    .error (.controlCharacters field text)
  else .ok text

/-- `_payload`. -/
def payload (value : Value) : Except EnvelopeError (List Rune) :=
  match value with
  | .str runes => .ok runes
  | value => .error (.payloadNotString value.typeName)

/-! ## Cursors -/

/-- A `source_cursor`, its members in order. -/
abbrev Cursor := List (String × Scalar Rune)

/-- A text of the source. -/
def literal (s : String) : Scalar Rune := .string (s.toList.map .char)

def unsequencedCursor (counter : Value) : Except EnvelopeError Cursor := do
  return [("type", literal "unsequenced"), ("counter", .number (← uint counter "counter"))]

def snapshotIdCursor (lastUpdateId : Value) : Except EnvelopeError Cursor := do
  return [("type", literal "snapshot"),
    ("last_update_id", .number (← uint lastUpdateId "last_update_id"))]

def snapshotTimeCursor (sourceTimeMs : Value) : Except EnvelopeError Cursor := do
  return [("type", literal "snapshot"),
    ("source_time_ms", .number (← uint sourceTimeMs "source_time_ms"))]

def updateRangeCursor (first last previousLast : Value) : Except EnvelopeError Cursor := do
  return [("type", literal "update_range"), ("first", .number (← uint first "first")),
    ("last", .number (← uint last "last")),
    ("previous_last", .number (← uint previousLast "previous_last"))]

/-! ### What the helpers build -/

/-- The `type` of a cursor. -/
def cursorKind : SourceCursor → String
  | .unsequenced _ => "unsequenced"
  | .snapshotId _ => "snapshot"
  | .snapshotTime _ => "snapshot"
  | .updateRange .. => "update_range"

/-- The numbers of a cursor, by their names. -/
def cursorNumbers : SourceCursor → List (String × Nat)
  | .unsequenced counter => [("counter", counter)]
  | .snapshotId lastUpdateId => [("last_update_id", lastUpdateId)]
  | .snapshotTime sourceTimeMs => [("source_time_ms", sourceTimeMs)]
  | .updateRange first last previousLast =>
    [("first", first), ("last", last), ("previous_last", previousLast)]

/-- The members of a cursor, over an alphabet that has the characters in it. -/
def cursorMembers {σ : Type} (ι : Char → σ) (c : SourceCursor) : List (String × Scalar σ) :=
  ("type", .string ((cursorKind c).toList.map ι)) ::
    (cursorNumbers c).map fun x => (x.1, .number x.2)

/-! ## Building -/

/-- The arguments of `build_envelope`. -/
structure Arguments where
  deliveryIndex : Value
  recordId : Value
  visibleNs : Value
  monotonicNs : Value := .none
  venue : Value
  stream : Value
  connectionEpoch : Value
  localCounter : Value
  kind : Value
  rawPayload : Value
  sourceCursor : Option Cursor := none
  envelopeVersion : Int := Envelope.envelopeVersion

/-- The members of a record, in order. -/
abbrev Record := List (String × Compact Rune)

def integer (n : Nat) : Compact Rune := .scalar (.number n)

def string (runes : List Rune) : Compact Rune := .scalar (.string runes)

def cursorMember : Option Cursor → Compact Rune
  | none => .scalar .null
  | some cursor => .object cursor

/-- The members that both versions start with. -/
def common (a : Arguments) : Except EnvelopeError Record := do
  return [("delivery_index", integer (← uint a.deliveryIndex "delivery_index")),
    ("record_id", string (← identifier a.recordId "record_id")),
    ("visible_ns", integer (← uint a.visibleNs "visible_ns"))]

/-- The members that both versions end with. -/
def tail (a : Arguments) : Except EnvelopeError Record := do
  return [("venue", string (← token a.venue "venue")),
    ("stream", string (← token a.stream "stream")),
    ("connection_epoch", string (← identifier a.connectionEpoch "connection_epoch")),
    ("local_counter", integer (← uint a.localCounter "local_counter")),
    ("source_cursor", cursorMember a.sourceCursor),
    ("kind", string (← token a.kind "kind")),
    ("raw_payload", string (← payload a.rawPayload))]

/-- The members that the version asks for, and their names as it has them. -/
def versioned (a : Arguments) (common tail : Record) :
    Except EnvelopeError (Record × List String) :=
  if a.envelopeVersion = 1 then
    if a.monotonicNs ≠ .none then .error .carriesMonotonic
    else .ok (common ++ tail, envelopeFieldsV1)
  else if a.envelopeVersion = 2 then
    if a.monotonicNs = .none then .error .requiresMonotonic
    else do
      let monotonicNs ← uint a.monotonicNs "monotonic_ns"
      return (("envelope_version", integer 2) :: common ++
        ("monotonic_ns", integer monotonicNs) :: tail, envelopeFieldsV2)
  else .error (.unsupportedVersion a.envelopeVersion)

def buildEnvelope (a : Arguments) : Except EnvelopeError Record := do
  let head ← common a
  let tail ← tail a
  let (record, expected) ← versioned a head tail
  if record.map (·.1) ≠ expected then .error (.fieldOrderDrifted (record.map (·.1)))
  else return record

/-! ## Encoding -/

/-- What `encode_envelope` raises. An integer of more digits than Python writes is a
    `ValueError`, half of a surrogate pair a `UnicodeEncodeError`. -/
inductive EncodeError where
  | envelope (e : EnvelopeError)
  | integerTooLong
  | surrogate
deriving DecidableEq

/-- The members with the text of a record that has one in UTF-8. -/
def recordChars? (record : Record) : Option (List (String × Compact Char)) :=
  record.mapM fun m : String × Compact Rune => m.2.chars?.map fun v => (m.1, v)

/-- `json.dumps` with compact separators. -/
def dumps (members : List (String × Compact Char)) : List Char :=
  objectText (members.map fun m => (m.1.toList, m.2.text))

/-- `encode_envelope`, where an integer is written in at most `digits` digits. No text of a record
    has a line break, so that a surrogate in it comes to light is all the same before or behind
    the check for one. -/
def encodeEnvelope (digits : Nat) (record : Record) : Except EncodeError (List UInt8) :=
  if record.any fun m => digits < m.2.width then .error .integerTooLong
  else
    match recordChars? record with
    | none => .error .surrogate
    | some members =>
      let text := dumps members
      if text.contains '\n' then .error (.envelope .containsNewline)
      else .ok ((String.ofList text).utf8Bytes ++ [10])

/-! ## A splice's own arguments -/

/-- The arguments of one record, of a splice's own types. -/
structure Given where
  deliveryIndex : Nat
  recordId : List Rune
  visibleNs : Nat
  monotonicNs : Option Nat
  venue : Venue
  stream : Stream
  connectionEpoch : List Rune
  localCounter : Nat
  sourceCursor : Option SourceCursor
  kind : RecordKind
  rawPayload : List Rune
  envelopeVersion : Int

def Given.arguments (g : Given) : Arguments where
  deliveryIndex := .int g.deliveryIndex
  recordId := .str g.recordId
  visibleNs := .int g.visibleNs
  monotonicNs := g.monotonicNs.elim .none fun n => .int n
  venue := .str (g.venue.asStr.toList.map .char)
  stream := .str (g.stream.asStr.toList.map .char)
  connectionEpoch := .str g.connectionEpoch
  localCounter := .int g.localCounter
  kind := .str (g.kind.asStr.toList.map .char)
  rawPayload := .str g.rawPayload
  sourceCursor := g.sourceCursor.map (cursorMembers .char)
  envelopeVersion := g.envelopeVersion

end PredictionIndexer.Splices.Envelope
