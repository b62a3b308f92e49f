import PredictionIndexer.ForStd.Order
import PredictionIndexer.ForStd.Result

/-!
# Capture envelopes

`ingester/crates/types/src/{identity,envelope,error}.rs`: the wire vocabulary, and the parser from
one delivered line to a typed view of it. The field set is closed: an unknown field, a repeated
field or a mixed version shape rejects the whole line.

`serde_json` is third-party code. `SerdeJson` holds the four things the parser asks of it.
-/

namespace PredictionIndexer.Continuity

/-! ## The wire vocabulary -/

inductive Venue where
  | polymarket
  | kalshi
  | limitless
  | internal
deriving DecidableEq

inductive Stream where
  | publicBook
  | publicSnapshot
  | publicTrade
  | publicQuote
  | referenceEvent
  | process
deriving DecidableEq

inductive RecordKind where
  | venueFrame
  | control
  | fault
deriving DecidableEq

namespace Venue

def asStr : Venue → String
  | polymarket => "polymarket"
  | kalshi => "kalshi"
  | limitless => "limitless"
  | internal => "internal"

def all : List Venue := [polymarket, kalshi, limitless, internal]

def fromWire (input : String) : Option Venue := all.find? (·.asStr = input)

@[simp] theorem fromWire_asStr (v : Venue) : fromWire v.asStr = some v := by
  cases v <;> decide

theorem asStr_injective : Function.Injective asStr := by
  intro a b h
  have hab : fromWire a.asStr = fromWire b.asStr := by rw [h]
  simpa using hab

/-- Declaration order, as the derived Rust `Ord` has it. -/
def index : Venue → Nat
  | polymarket => 0
  | kalshi => 1
  | limitless => 2
  | internal => 3

theorem index_injective : Function.Injective index := by
  rintro (_ | _ | _ | _) (_ | _ | _ | _) h <;> first | rfl | cases h

end Venue

instance : Ord Venue := ⟨compareOn Venue.index⟩
instance : Std.TransOrd Venue := inferInstanceAs (Std.TransCmp (compareOn Venue.index))
instance : Std.LawfulEqOrd Venue := Std.lawfulEqCmp_compareOn _ Venue.index_injective

namespace Stream

def asStr : Stream → String
  | publicBook => "public_book"
  | publicSnapshot => "public_snapshot"
  | publicTrade => "public_trade"
  | publicQuote => "public_quote"
  | referenceEvent => "reference_event"
  | process => "process"

def all : List Stream :=
  [publicBook, publicSnapshot, publicTrade, publicQuote, referenceEvent, process]

def fromWire (input : String) : Option Stream := all.find? (·.asStr = input)

@[simp] theorem fromWire_asStr (s : Stream) : fromWire s.asStr = some s := by
  cases s <;> decide

theorem asStr_injective : Function.Injective asStr := by
  intro a b h
  have hab : fromWire a.asStr = fromWire b.asStr := by rw [h]
  simpa using hab

/-- Declaration order, as the derived Rust `Ord` has it. -/
def index : Stream → Nat
  | publicBook => 0
  | publicSnapshot => 1
  | publicTrade => 2
  | publicQuote => 3
  | referenceEvent => 4
  | process => 5

theorem index_injective : Function.Injective index := by
  rintro (_ | _ | _ | _ | _ | _) (_ | _ | _ | _ | _ | _) h <;> first | rfl | cases h

end Stream

instance : Ord Stream := ⟨compareOn Stream.index⟩
instance : Std.TransOrd Stream := inferInstanceAs (Std.TransCmp (compareOn Stream.index))
instance : Std.LawfulEqOrd Stream := Std.lawfulEqCmp_compareOn _ Stream.index_injective

namespace RecordKind

def asStr : RecordKind → String
  | venueFrame => "venue_frame"
  | control => "control"
  | fault => "fault"

def all : List RecordKind := [venueFrame, control, fault]

def fromWire (input : String) : Option RecordKind := all.find? (·.asStr = input)

@[simp] theorem fromWire_asStr (k : RecordKind) : fromWire k.asStr = some k := by
  cases k <;> decide

end RecordKind

/-- What the venue said about its own continuity. -/
inductive SourceCursor where
  | unsequenced (counter : Nat)
  | snapshotId (lastUpdateId : Nat)
  | snapshotTime (sourceTimeMs : Nat)
  | updateRange (first last previousLast : Nat)
deriving DecidableEq

/-- The value a later cursor must not fall below, where the venue offers one. -/
def SourceCursor.monotonicKey : SourceCursor → Option Nat
  | .snapshotId lastUpdateId => some lastUpdateId
  | .snapshotTime sourceTimeMs => some sourceTimeMs
  | .updateRange _ last _ => some last
  | .unsequenced _ => none

/-! ## The view of one line -/

structure EnvelopeView where
  envelopeVersion : Nat
  deliveryIndex : Nat
  recordId : String
  visibleNs : Nat
  monotonicNs : Option Nat
  venue : Venue
  stream : Stream
  connectionEpoch : String
  localCounter : Nat
  sourceCursor : Option SourceCursor
  kind : RecordKind
  rawPayload : String
  index_lt : deliveryIndex < 2 ^ 64
deriving DecidableEq

inductive EnvelopeError where
  | notJson (detail : String)
  | invalidUtf8
  | missingField (field : String)
  | duplicateField (field : String)
  | unknownField (field : String)
  | invalidInteger (field : String)
  | unsupportedIdentifier (field : String)
  | unknownVenue (value : String)
  | unknownStream (value : String)
  | unknownRecordKind (value : String)
  | invalidSourceCursor
  | unsupportedEnvelopeVersion (version : Nat)
  | invalidEnvelopeVersionShape
deriving DecidableEq

/-- `Display`. -/
def EnvelopeError.text : EnvelopeError → String
  | notJson detail => "not valid JSON: " ++ detail
  | invalidUtf8 => "line is not valid UTF-8"
  | missingField field => "missing field: " ++ field
  | duplicateField field => "duplicate field: " ++ field
  | unknownField field => "unknown field: " ++ field
  | invalidInteger field => field ++ " must be a non-negative integer in plain digits"
  | unsupportedIdentifier field => field ++ " must be plain unescaped ASCII"
  | unknownVenue value => "unknown venue: " ++ value
  | unknownStream value => "unknown stream: " ++ value
  | unknownRecordKind value => "unknown kind: " ++ value
  | invalidSourceCursor => "source_cursor shape not recognised"
  | unsupportedEnvelopeVersion version => "unsupported envelope version: " ++ toString version
  | invalidEnvelopeVersionShape =>
    "envelope_version and monotonic_ns must either both be absent (v1) or form v2"

/-! ## Parsing -/

/-- `u64`. -/
abbrev U64 := Fin (2 ^ 64)

theorem U64.lt (n : U64) : n.val < 2 ^ 64 := n.isLt

/-- The members of a `source_cursor` object, as serde fills them in. -/
structure CursorWire where
  kind : String
  counter : Option U64
  lastUpdateId : Option U64
  sourceTimeMs : Option U64
  first : Option U64
  last : Option U64
  previousLast : Option U64
deriving DecidableEq

/-- What the parser asks of `serde_json`. -/
structure SerdeJson where
  /-- The members of the object a text starts with, key and raw lexeme, in order; and whether
      only blanks follow it. -/
  object : String → Except String (List (String × String) × Except String Unit)
  /-- `from_str::<String>` of a lexeme. -/
  string : String → Option String
  /-- `from_str` of a lexeme into the cursor's wire struct. -/
  cursor : String → Option CursorWire

/-- Strips one framing newline and only that. -/
def stripNewline (line : List UInt8) : List UInt8 :=
  if line.getLast? = some 10 then line.dropLast else line

/-- Parses an unsigned integer straight from its digits. -/
def parseUint (lexeme : String) : Option U64 :=
  if lexeme.toList.isEmpty || !lexeme.toList.all Char.isDigit then none
  else
    let value := lexeme.toList.foldl (fun value c => value * 10 + (c.toNat - '0'.toNat)) 0
    if h : value < 2 ^ 64 then some ⟨value, h⟩ else none

def uint (lexeme field : String) : Except EnvelopeError U64 :=
  match parseUint lexeme with
  | some value => .ok value
  | none => .error (.invalidInteger field)

/-- The text between two quotes, refused when it holds an escape. -/
def plainString (lexeme field : String) : Except EnvelopeError String :=
  let cs := lexeme.toList
  let inner := (cs.drop 1).dropLast
  if cs.length < 2 || cs.head? ≠ some '"' || cs.getLast? ≠ some '"' || inner.contains '\\' then
    .error (.unsupportedIdentifier field)
  else .ok (String.ofList inner)

/-- `is_ascii_control`. -/
def isAsciiControl (c : Char) : Bool := c.toNat < 32 || c.toNat = 127

def identifier (lexeme field : String) : Except EnvelopeError String := do
  let text ← plainString lexeme field
  if text.toList.isEmpty || !text.toList.all (·.toNat < 128) || text.toList.any isAsciiControl then
    .error (.unsupportedIdentifier field)
  else .ok text

/-- A plain string that has to be one of a closed vocabulary. -/
def word {α : Type} (fromWire : String → Option α) (unknown : String → EnvelopeError)
    (lexeme field : String) : Except EnvelopeError α := do
  let text ← plainString lexeme field
  match fromWire text with
  | some a => .ok a
  | none => .error (unknown text)

def parseCursor (json : SerdeJson) (lexeme : String) : Except EnvelopeError SourceCursor :=
  match json.cursor lexeme with
  | none => .error .invalidSourceCursor
  | some ⟨"unsequenced", some counter, none, none, none, none, none⟩ =>
    .ok (.unsequenced counter)
  | some ⟨"snapshot", none, some lastUpdateId, none, none, none, none⟩ =>
    .ok (.snapshotId lastUpdateId)
  | some ⟨"snapshot", none, none, some sourceTimeMs, none, none, none⟩ =>
    .ok (.snapshotTime sourceTimeMs)
  | some ⟨"update_range", none, none, none, some first, some last, some previousLast⟩ =>
    .ok (.updateRange first last previousLast)
  | some _ => .error .invalidSourceCursor

structure Slots where
  envelopeVersion : Option U64 := none
  deliveryIndex : Option U64 := none
  recordId : Option String := none
  visibleNs : Option U64 := none
  monotonicNs : Option U64 := none
  venue : Option Venue := none
  stream : Option Stream := none
  connectionEpoch : Option String := none
  localCounter : Option U64 := none
  /-- Outside: was the field present. Inside: was it null. -/
  sourceCursor : Option (Option SourceCursor) := none
  kind : Option RecordKind := none
  rawPayload : Option String := none

def setOnce {α : Type} (slot : Option α) (value : α) (field : String) :
    Except EnvelopeError (Option α) :=
  if slot.isSome then .error (.duplicateField field) else .ok (some value)

/-- `ok_or(MissingField)`. -/
def required {α : Type} (slot : Option α) (field : String) : Except EnvelopeError α :=
  match slot with
  | some a => .ok a
  | none => .error (.missingField field)

namespace Slots

/-- One member of the object. -/
def set (json : SerdeJson) (s : Slots) (key lexeme : String) : Except EnvelopeError Slots :=
  match key with
  | "envelope_version" => do
    return { s with envelopeVersion := ← setOnce s.envelopeVersion (← uint lexeme key) key }
  | "delivery_index" => do
    return { s with deliveryIndex := ← setOnce s.deliveryIndex (← uint lexeme key) key }
  | "record_id" => do
    return { s with recordId := ← setOnce s.recordId (← identifier lexeme key) key }
  | "visible_ns" => do
    return { s with visibleNs := ← setOnce s.visibleNs (← uint lexeme key) key }
  | "monotonic_ns" => do
    return { s with monotonicNs := ← setOnce s.monotonicNs (← uint lexeme key) key }
  | "venue" => do
    return { s with venue := ← setOnce s.venue (← word Venue.fromWire .unknownVenue lexeme key) key }
  | "stream" => do
    return { s with
      stream := ← setOnce s.stream (← word Stream.fromWire .unknownStream lexeme key) key }
  | "connection_epoch" => do
    return { s with connectionEpoch := ← setOnce s.connectionEpoch (← identifier lexeme key) key }
  | "local_counter" => do
    return { s with localCounter := ← setOnce s.localCounter (← uint lexeme key) key }
  | "source_cursor" => do
    let cursor ← if lexeme = "null" then pure none else some <$> parseCursor json lexeme
    return { s with sourceCursor := ← setOnce s.sourceCursor cursor key }
  | "kind" => do
    return { s with
      kind := ← setOnce s.kind (← word RecordKind.fromWire .unknownRecordKind lexeme key) key }
  | "raw_payload" =>
    match json.string lexeme with
    | some text => do return { s with rawPayload := ← setOnce s.rawPayload text key }
    | none => .error (.notJson "raw_payload is not a string")
  | other => .error (.unknownField other)

/-- Every member in turn; the last rejection is the one reported. -/
def fill (json : SerdeJson) (entries : List (String × String)) : Except EnvelopeError Slots :=
  let (slots, rejected) := entries.foldl (fun (s, rejected) (key, lexeme) =>
    match s.set json key lexeme with
    | .ok s' => (s', rejected)
    | .error e => (s, some e)) (({} : Slots), none)
  match rejected with
  | some e => .error e
  | none => .ok slots

def finish (s : Slots) : Except EnvelopeError EnvelopeView := do
  let (envelopeVersion, monotonicNs) ← match s.envelopeVersion, s.monotonicNs with
    | none, none => .ok (1, none)
    | some version, monotonicNs =>
      if version.val = 2 then
        match monotonicNs with
        | some ns => .ok (2, some ns.val)
        | none => .error .invalidEnvelopeVersionShape
      else .error (.unsupportedEnvelopeVersion version)
    | none, some _ => .error .invalidEnvelopeVersionShape
  let deliveryIndex ← required s.deliveryIndex "delivery_index"
  let recordId ← required s.recordId "record_id"
  let visibleNs ← required s.visibleNs "visible_ns"
  let venue ← required s.venue "venue"
  let stream ← required s.stream "stream"
  let connectionEpoch ← required s.connectionEpoch "connection_epoch"
  let localCounter ← required s.localCounter "local_counter"
  let sourceCursor ← required s.sourceCursor "source_cursor"
  let kind ← required s.kind "kind"
  let rawPayload ← required s.rawPayload "raw_payload"
  return {
    envelopeVersion, deliveryIndex := deliveryIndex.val, recordId, visibleNs := visibleNs.val,
    monotonicNs, venue, stream, connectionEpoch, localCounter := localCounter.val, sourceCursor,
    kind, rawPayload, index_lt := U64.lt deliveryIndex }

end Slots

/-- `EnvelopeView::parse`: one exact delivered line in, a typed view out. -/
def EnvelopeView.parse (json : SerdeJson) (line : List UInt8) :
    Except EnvelopeError EnvelopeView := do
  match String.fromUTF8? ⟨(stripNewline line).toArray⟩ with
  | none => .error .invalidUtf8
  | some text =>
    match json.object text with
    | .error detail => .error (.notJson detail)
    | .ok (entries, trailing) =>
      let view ← (Slots.fill json entries) >>= Slots.finish
      match trailing with
      | .ok () => .ok view
      | .error detail => .error (.notJson detail)

end PredictionIndexer.Continuity
