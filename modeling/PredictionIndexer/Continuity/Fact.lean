import PredictionIndexer.Continuity.Classifier
import PredictionIndexer.ForStd.FlatJson
import PredictionIndexer.ForStd.Utf8

/-!
# Canonical facts

`ingester/crates/continuity/src/fact.rs`: the hand-written canonical encoding of a fact, and the
decoder that recovery reads it back with. `serde_json` is third-party code, so the decoder takes
its reading of a text as a parameter; `ReadsFacts` is what it does on plain objects.

A `u64` field is a natural number with its bound in `InRange`; positions are unbounded.

## Key results

- `ContinuityFact.fromCanonicalBytes_canonicalBytes`: a canonical fact decodes to itself
-/

namespace PredictionIndexer.Continuity

open FlatJson

/-! ## Hexadecimal -/

/-- The value of a digit in base 16, either case. -/
def hexDigit (c : Char) : Option Nat :=
  if c.isDigit then some (c.toNat - '0'.toNat)
  else if 'a' ≤ c ∧ c ≤ 'f' then some (c.toNat - 'a'.toNat + 10)
  else if 'A' ≤ c ∧ c ≤ 'F' then some (c.toNat - 'A'.toNat + 10)
  else none

/-- `u8::from_str_radix(_, 16)` of two characters, which takes a leading plus sign. -/
def hexPair (a b : Char) : Option UInt8 :=
  if a = '+' then (hexDigit b).map UInt8.ofNat
  else do return UInt8.ofNat ((← hexDigit a) * 16 + (← hexDigit b))

def hexPairs : List Char → Option (List UInt8)
  | [] => some []
  | a :: b :: rest => do return (← hexPair a b) :: (← hexPairs rest)
  | [_] => none

/-- `from_hex`. -/
def ContentHash.fromHex (text : String) : Option ContentHash :=
  match hexPairs text.toList with
  | some bytes => if h : bytes.length = 32 then some ⟨bytes, h⟩ else none
  | none => none

theorem hexDigit_digitChar {n : Nat} (hn : n < 16) : hexDigit (Nat.digitChar n) = some n := by
  revert n
  decide

theorem digitChar_ne_plus {n : Nat} (hn : n < 16) : Nat.digitChar n ≠ '+' := by
  revert n
  decide

theorem plainChar_digitChar {n : Nat} (hn : n < 16) : PlainChar (Nat.digitChar n) := by
  revert n
  decide

theorem hexPairs_hexBytes (bytes : List UInt8) : hexPairs (hexBytes bytes) = some bytes := by
  induction bytes with
  | nil => rfl
  | cons b bytes ih =>
    have hb : b.toNat < 256 := b.toNat_lt
    have hhi : b.toNat / 16 < 16 := by omega
    have hlo : b.toNat % 16 < 16 := by omega
    have hpair : hexPair (Nat.digitChar (b.toNat / 16)) (Nat.digitChar (b.toNat % 16)) = some b := by
      have hsum : b.toNat / 16 * 16 + b.toNat % 16 = b.toNat := by omega
      rw [hexPair, if_neg (digitChar_ne_plus hhi), hexDigit_digitChar hhi, hexDigit_digitChar hlo]
      show some (UInt8.ofNat (b.toNat / 16 * 16 + b.toNat % 16)) = some b
      rw [hsum, UInt8.ofNat_toNat]
    show hexPairs (_ :: _ :: hexBytes bytes) = _
    simp [hexPairs, hpair, ih]

@[simp] theorem ContentHash.fromHex_toHex (h : ContentHash) :
    ContentHash.fromHex h.toHex = some h := by
  simp [fromHex, toHex, hexPairs_hexBytes, h.length_eq]

theorem ContentHash.plainText_toHex (h : ContentHash) : PlainText h.toHex := by
  intro c hc
  simp only [toHex, String.toList_ofList, hexBytes, List.mem_flatMap] at hc
  obtain ⟨b, -, hc⟩ := hc
  have hb : b.toNat < 256 := b.toNat_lt
  simp only [List.mem_cons, List.not_mem_nil, or_false] at hc
  rcases hc with rfl | rfl
  · exact plainChar_digitChar (by omega)
  · exact plainChar_digitChar (by omega)

/-! ## Encoding -/

/-- The members a cause adds after its label. -/
def ContinuityCause.detail : ContinuityCause → List (String × Nat)
  | continuous first last => [("first", first), ("last", last)]
  | gapProven previous first => [("previous", previous), ("first", first)]
  | cursorWentBackwards previous observed => [("previous", previous), ("observed", observed)]
  | localCounterBroken expected observed => [("expected", expected), ("observed", observed)]
  | duplicate original => [("original", original.get)]
  | conflict original => [("original", original.get)]
  | _ => []

namespace ContinuityFact

/-- `write_to`, as text. -/
def canonicalText (f : ContinuityFact) : String :=
  "\x7b\"v\":1,\"seq\":" ++ toString f.seq.get ++
  ",\"record_id\":\"" ++ f.recordId ++
  "\",\"venue\":\"" ++ f.key.lane.venue.asStr ++
  "\",\"stream\":\"" ++ f.key.lane.stream.asStr ++
  "\",\"epoch\":\"" ++ f.key.epoch ++
  "\",\"kind\":\"" ++ f.kind.asStr ++
  "\",\"local_counter\":" ++ toString f.localCounter ++
  ",\"delivery_index\":" ++ toString f.deliveryIndex ++
  ",\"content\":\"" ++ f.content.toHex ++
  "\",\"monotonic_key\":" ++ (match f.monotonicKey with
    | some value => toString value
    | none => "null") ++
  ",\"cause\":\"" ++ f.cause.label ++ "\"" ++
  String.join (f.cause.detail.map fun (name, value) =>
    ",\"" ++ name ++ "\":" ++ toString value) ++ "\x7d"

/-- `to_canonical_bytes`. -/
def canonicalBytes (f : ContinuityFact) : List UInt8 := f.canonicalText.utf8Bytes

end ContinuityFact

/-! ## Decoding -/

/-- The members of a canonical fact, as serde fills them in. -/
structure FactWire where
  v : Nat
  seq : Nat
  recordId : String
  venue : String
  stream : String
  epoch : String
  kind : String
  localCounter : Nat
  deliveryIndex : Nat
  content : String
  monotonicKey : Option Nat
  cause : String
  first : Option Nat
  last : Option Nat
  previous : Option Nat
  observed : Option Nat
  expected : Option Nat
  original : Option Nat
deriving DecidableEq

namespace FactWire

def fields : List String :=
  ["v", "seq", "record_id", "venue", "stream", "epoch", "kind", "local_counter", "delivery_index",
    "content", "monotonic_key", "cause", "first", "last", "previous", "observed", "expected",
    "original"]

/-- A required `String` member. -/
def text (ms : List (String × Value)) (name : String) : Option String :=
  match ms.lookup name with
  | some (.text s) => some s
  | _ => none

/-- A required integer member. -/
def number (ms : List (String × Value)) (name : String) : Option Nat :=
  match ms.lookup name with
  | some (.number n) => some n
  | _ => none

/-- An optional integer member: absent and null are the same. -/
def optional (ms : List (String × Value)) (name : String) : Option (Option Nat) :=
  match ms.lookup name with
  | none => some none
  | some .null => some none
  | some (.number n) => some (some n)
  | some (.text _) => none

/-- An integer is in the range of its field. -/
def inRange : String × Value → Bool
  | (name, .number n) => name = "seq" || name = "original" || n < 2 ^ 64
  | _ => true

/-- What serde's derived reader makes of the members of an object: a repeated or an unknown name is
    refused, an integer has to be in the range of its field. -/
def ofMembers (ms : List (String × Value)) : Option FactWire := do
  guard ((ms.map (·.1)).Nodup ∧ ∀ m ∈ ms, m.1 ∈ fields ∧ inRange m)
  return {
    v := ← number ms "v"
    seq := ← number ms "seq"
    recordId := ← text ms "record_id"
    venue := ← text ms "venue"
    stream := ← text ms "stream"
    epoch := ← text ms "epoch"
    kind := ← text ms "kind"
    localCounter := ← number ms "local_counter"
    deliveryIndex := ← number ms "delivery_index"
    content := ← text ms "content"
    monotonicKey := ← optional ms "monotonic_key"
    cause := ← text ms "cause"
    first := ← optional ms "first"
    last := ← optional ms "last"
    previous := ← optional ms "previous"
    observed := ← optional ms "observed"
    expected := ← optional ms "expected"
    original := ← optional ms "original" }

end FactWire

/-- `serde_json::from_slice` of a canonical fact's bytes. -/
abbrev FactJson := List UInt8 → Except String FactWire

/-- A reader takes every plain object with the right members. -/
def ReadsFacts (json : FactJson) : Prop :=
  ∀ (ms : List (String × Value)) (w : FactWire),
    (∀ m ∈ ms, PlainText m.1 ∧ m.2.Plain) → FactWire.ofMembers ms = some w →
      json (String.ofList (render ms)).utf8Bytes = .ok w

namespace ContinuityFact

/-- The cause a label and its details name. -/
def decodeCause (w : FactWire) : Except String ContinuityCause :=
  match w.cause, w.first, w.last, w.previous, w.observed, w.expected, w.original with
  | "lifecycle", none, none, none, none, none, none => .ok .lifecycle
  | "bootstrap", none, none, none, none, none, none => .ok .bootstrap
  | "unsequenced_venue", none, none, none, none, none, none => .ok .unsequencedVenue
  | "sparse_monotonic", none, none, none, none, none, none => .ok .sparseMonotonic
  | "continuous", some first, some last, none, none, none, none => .ok (.continuous first last)
  | "gap_proven", some first, none, some previous, none, none, none =>
    .ok (.gapProven previous first)
  | "cursor_went_backwards", none, none, some previous, some observed, none, none =>
    .ok (.cursorWentBackwards previous observed)
  | "local_counter_broken", none, none, none, some observed, some expected, none =>
    .ok (.localCounterBroken expected observed)
  | "duplicate", none, none, none, none, none, some original =>
    match (Sequence.new original : Option FactSeq) with
    | some original => .ok (.duplicate original)
    | none => .error "invalid duplicate origin"
  | "conflict", none, none, none, none, none, some original =>
    match (Sequence.new original : Option FactSeq) with
    | some original => .ok (.conflict original)
    | none => .error "invalid conflict origin"
  | _, _, _, _, _, _, _ => .error ("cause \"" ++ w.cause ++ "\" has an invalid detail shape")

/-- `ok_or_else`. -/
def known {α : Type} (x : Option α) (message : String) : Except String α :=
  match x with
  | some a => .ok a
  | none => .error message

/-- `from_canonical_bytes`, past the JSON text. -/
def ofWire (expectedSeq : FactSeq) (w : FactWire) : Except String ContinuityFact :=
  if w.v ≠ 1 then .error ("unsupported continuity fact version " ++ toString w.v)
  else if w.seq ≠ expectedSeq.get then
    .error ("canonical seq " ++ toString w.seq ++ " does not match row seq " ++
      toString expectedSeq.get)
  else do
    let cause ← decodeCause w
    let venue ← known (Venue.fromWire w.venue) ("unknown venue \"" ++ w.venue ++ "\"")
    let stream ← known (Stream.fromWire w.stream) ("unknown stream \"" ++ w.stream ++ "\"")
    let kind ← known (RecordKind.fromWire w.kind) ("unknown kind \"" ++ w.kind ++ "\"")
    let content ← known (ContentHash.fromHex w.content) "invalid content hash"
    return {
      seq := expectedSeq, recordId := w.recordId, key := ⟨⟨venue, stream⟩, w.epoch⟩, kind
      localCounter := w.localCounter, deliveryIndex := w.deliveryIndex, content
      monotonicKey := w.monotonicKey, cause }

/-- `from_canonical_bytes`. -/
def fromCanonicalBytes (json : FactJson) (expectedSeq : FactSeq) (bytes : List UInt8) :
    Except String ContinuityFact :=
  match json bytes with
  | .ok w => ofWire expectedSeq w
  | .error detail => .error ("invalid canonical JSON: " ++ detail)

/-! ## Reading back -/

/-- The members of the encoding. -/
def members (f : ContinuityFact) : List (String × Value) :=
  [("v", .number 1), ("seq", .number f.seq.get), ("record_id", .text f.recordId),
    ("venue", .text f.key.lane.venue.asStr), ("stream", .text f.key.lane.stream.asStr),
    ("epoch", .text f.key.epoch), ("kind", .text f.kind.asStr),
    ("local_counter", .number f.localCounter), ("delivery_index", .number f.deliveryIndex),
    ("content", .text f.content.toHex),
    ("monotonic_key", match f.monotonicKey with
      | some value => .number value
      | none => .null),
    ("cause", .text f.cause.label)] ++ f.cause.detail.map fun (name, value) => (name, .number value)

/-- The integers fit their fields, and the identifiers need no escape. -/
structure Encodable (f : ContinuityFact) : Prop where
  recordId : PlainText f.recordId
  epoch : PlainText f.key.epoch
  localCounter : f.localCounter < 2 ^ 64
  deliveryIndex : f.deliveryIndex < 2 ^ 64
  monotonicKey : ∀ k ∈ f.monotonicKey, k < 2 ^ 64
  detail : ∀ d ∈ f.cause.detail, d.1 = "original" ∨ d.2 < 2 ^ 64

theorem plainText_label (c : ContinuityCause) : PlainText c.label := by
  cases c <;> simp only [ContinuityCause.label] <;> decide

theorem plainText_detail (c : ContinuityCause) : ∀ d ∈ c.detail, PlainText d.1 := by
  cases c <;> simp only [ContinuityCause.detail, List.forall_mem_cons, List.not_mem_nil,
    false_implies, implies_true, and_true] <;> decide

theorem tail_detail (ds : List (String × Nat)) :
    tail (ds.map fun (name, value) => (name, Value.number value)) =
      (String.join (ds.map fun (name, value) =>
        ",\"" ++ name ++ "\":" ++ toString value)).toList ++ ['}'] := by
  induction ds with
  | nil => rfl
  | cons d ds ih =>
    rw [List.map_cons, List.map_cons, tail, ih]
    simp [member, quoted, Value.render, String.join_cons]

theorem toDigits_one : Nat.toDigits 10 1 = ['1'] := by decide

set_option maxRecDepth 4000 in
theorem toList_canonicalText (f : ContinuityFact) : f.canonicalText.toList = render f.members := by
  have hdetail := tail_detail f.cause.detail
  unfold canonicalText members
  generalize f.cause.detail = ds at hdetail ⊢
  cases f.monotonicKey <;>
    simp only [String.toList_append, String.reduceToList, Nat.toString_eq_repr, Nat.toList_repr,
      List.append_assoc, List.cons_append, List.nil_append, render, tail, member, quoted,
      Value.render, hdetail, toDigits_one]

theorem names_members (f : ContinuityFact) :
    f.members.map (·.1) = ["v", "seq", "record_id", "venue", "stream", "epoch", "kind",
      "local_counter", "delivery_index", "content", "monotonic_key", "cause"] ++
        f.cause.detail.map (·.1) := by
  simp [members]

/-- The names of the encoding are distinct fields of the reader. -/
theorem names_nodup (f : ContinuityFact) :
    (f.members.map (·.1)).Nodup ∧ ∀ m ∈ f.members, m.1 ∈ FactWire.fields := by
  have hnames : (f.members.map (·.1)).Nodup ∧ ∀ n ∈ f.members.map (·.1), n ∈ FactWire.fields := by
    rw [names_members]
    cases f.cause <;> simp only [ContinuityCause.detail, List.map_cons, List.map_nil] <;> decide
  exact ⟨hnames.1, fun m hm => hnames.2 _ (List.mem_map_of_mem hm)⟩

theorem plain_members {f : ContinuityFact} (hf : f.Encodable) :
    ∀ m ∈ f.members, PlainText m.1 ∧ m.2.Plain := by
  have hfields : ∀ n ∈ FactWire.fields, PlainText n := by decide
  have hvenue : PlainText f.key.lane.venue.asStr := by cases f.key.lane.venue <;> decide
  have hstream : PlainText f.key.lane.stream.asStr := by cases f.key.lane.stream <;> decide
  have hkind : PlainText f.kind.asStr := by cases f.kind <;> decide
  intro m hm
  refine ⟨hfields _ ((names_nodup f).2 m hm), ?_⟩
  rcases List.mem_append.mp hm with hm | hm
  · simp only [List.mem_cons, List.not_mem_nil, or_false] at hm
    rcases hm with rfl | rfl | rfl | rfl | rfl | rfl | rfl | rfl | rfl | rfl | rfl | rfl
    · exact trivial
    · exact trivial
    · exact hf.recordId
    · exact hvenue
    · exact hstream
    · exact hf.epoch
    · exact hkind
    · exact trivial
    · exact trivial
    · exact f.content.plainText_toHex
    · cases f.monotonicKey <;> exact trivial
    · exact plainText_label f.cause
  · obtain ⟨d, -, rfl⟩ := List.mem_map.mp hm
    exact trivial

/-- What the reader makes of the encoding. -/
def wire (f : ContinuityFact) : FactWire where
  v := 1
  seq := f.seq.get
  recordId := f.recordId
  venue := f.key.lane.venue.asStr
  stream := f.key.lane.stream.asStr
  epoch := f.key.epoch
  kind := f.kind.asStr
  localCounter := f.localCounter
  deliveryIndex := f.deliveryIndex
  content := f.content.toHex
  monotonicKey := f.monotonicKey
  cause := f.cause.label
  first := f.cause.detail.lookup "first"
  last := f.cause.detail.lookup "last"
  previous := f.cause.detail.lookup "previous"
  observed := f.cause.detail.lookup "observed"
  expected := f.cause.detail.lookup "expected"
  original := f.cause.detail.lookup "original"

theorem inRange_members {f : ContinuityFact} (hf : f.Encodable) :
    ∀ m ∈ f.members, FactWire.inRange m = true := by
  intro m hm
  rcases List.mem_append.mp hm with hm | hm
  · simp only [List.mem_cons, List.not_mem_nil, or_false] at hm
    rcases hm with rfl | rfl | rfl | rfl | rfl | rfl | rfl | rfl | rfl | rfl | rfl | rfl
    case inr.inr.inr.inr.inr.inr.inr.inl => exact decide_eq_true hf.localCounter
    case inr.inr.inr.inr.inr.inr.inr.inr.inl => exact decide_eq_true hf.deliveryIndex
    case inr.inr.inr.inr.inr.inr.inr.inr.inr.inr.inl =>
      cases hk : f.monotonicKey with
      | none => rfl
      | some k => exact decide_eq_true (hf.monotonicKey k (by simp [hk]))
    all_goals rfl
  · obtain ⟨d, hd, rfl⟩ := List.mem_map.mp hm
    have := hf.detail d hd
    simp only [FactWire.inRange, Bool.or_eq_true, decide_eq_true_eq]
    tauto

theorem ofMembers_members {f : ContinuityFact} (hf : f.Encodable) :
    FactWire.ofMembers f.members = some f.wire := by
  have hguard : (f.members.map (·.1)).Nodup ∧
      ∀ m ∈ f.members, m.1 ∈ FactWire.fields ∧ FactWire.inRange m = true :=
    ⟨(names_nodup f).1, fun m hm => ⟨(names_nodup f).2 m hm, inRange_members hf m hm⟩⟩
  rw [FactWire.ofMembers, guard, if_pos hguard]
  obtain ⟨seq, recordId, key, kind, localCounter, deliveryIndex, content, mono, cause⟩ := f
  cases mono <;> cases cause <;> rfl

theorem ofWire_wire (f : ContinuityFact) : ofWire f.seq f.wire = .ok f := by
  have hcause : decodeCause f.wire = .ok f.cause := by
    cases hc : f.cause <;> simp [wire, decodeCause, hc, ContinuityCause.detail,
      ContinuityCause.label, List.lookup, Sequence.new_get]
  rw [ofWire, if_neg (by simp [wire]), if_neg (by simp [wire]), hcause]
  simp [wire, known]

/-- A canonical fact decodes to itself. -/
theorem fromCanonicalBytes_canonicalBytes {json : FactJson} (hjson : ReadsFacts json)
    {f : ContinuityFact} (hf : f.Encodable) :
    fromCanonicalBytes json f.seq f.canonicalBytes = .ok f := by
  have htext : f.canonicalText = String.ofList (render f.members) := by
    rw [← toList_canonicalText, String.ofList_toList]
  rw [fromCanonicalBytes, canonicalBytes, htext,
    hjson _ _ (plain_members hf) (ofMembers_members hf)]
  exact ofWire_wire f

end ContinuityFact

end PredictionIndexer.Continuity
