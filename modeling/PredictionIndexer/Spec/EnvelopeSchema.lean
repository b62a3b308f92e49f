import PredictionIndexer.Spec.CursorSchema

/-!
# The schema an envelope is held to

`EnvelopeView::parse` reads the members of a line's object one by one, and leaves the object inside
`source_cursor` to a derived struct. `IsEnvelope` is the schema of the whole line, over what is
taken for a cursor; `ClosedCursor` holds the cursor to the same rule as the line, `LooseCursor` is
what the derived struct reads beyond it. Names, identifiers and words count as they are spelled
between their quotes.

## Key results

- `Slots.foldlM_set_eq_ok`: members read in turn fill the slots they name, each once
- `parse_eq_ok_iff`: what is accepted
- `parse_closed_iff`: the closed schema is what is accepted, loose cursors apart
-/

namespace PredictionIndexer.Continuity

open JsonText Fallible

/-! ## Lexemes -/

/-- An integer in plain digits, of a `u64`. -/
structure PlainDecimal (lexeme : String) (n : Nat) : Prop where
  ne_nil : lexeme.toList ≠ []
  digits : ∀ c ∈ lexeme.toList, c.isDigit = true
  value : Nat.ofDigitChars 10 lexeme.toList 0 = n
  lt : n < 2 ^ 64

/-- A text between quotes, with no escape in it. -/
def Quoted (lexeme text : String) : Prop :=
  lexeme.toList = '"' :: (text.toList ++ ['"']) ∧ '\\' ∉ text.toList

/-- Not empty, and printable ASCII. -/
def Printable (text : String) : Prop :=
  text.toList ≠ [] ∧ ∀ c ∈ text.toList, 32 ≤ c.toNat ∧ c.toNat < 127

section Lexemes

variable {lexeme field text : String}

theorem uint_eq_ok {n : U64} : uint lexeme field = .ok n ↔ PlainDecimal lexeme n := by
  have hparse : uint lexeme field = .ok n ↔ parseUint lexeme = some n := by
    unfold uint
    split <;> rename_i heq <;> simp [heq]
  rw [hparse, parseUint, Splices.Envelope.foldl_digits]
  split
  · rename_i hshape
    simp only [reduceCtorEq, false_iff]
    intro h
    have hdigits : lexeme.toList.all Char.isDigit = true := List.all_eq_true.mpr h.digits
    simp [h.ne_nil, hdigits] at hshape
  · rename_i hshape
    simp only [Bool.or_eq_true, List.isEmpty_iff, Bool.not_eq_true', not_or, Bool.not_eq_false,
      List.all_eq_true] at hshape
    dsimp only
    split
    · rename_i hlt
      simp only [Option.some.injEq, Fin.ext_iff]
      exact ⟨fun h => ⟨hshape.1, hshape.2, h, n.isLt⟩, fun h => h.value⟩
    · rename_i hge
      simp only [reduceCtorEq, false_iff]
      intro h
      exact hge (h.value ▸ h.lt)

theorem plainString_iff : plainString lexeme field = .ok text ↔ Quoted lexeme text := by
  refine ⟨plainString_eq_ok, ?_⟩
  rintro ⟨hlexeme, hescape⟩
  have hinner : (lexeme.toList.drop 1).dropLast = text.toList := by
    rw [hlexeme, List.drop_one, List.tail_cons, List.dropLast_concat]
  have hlast : lexeme.toList.getLast? = some '"' := by
    rw [hlexeme, ← List.cons_append, List.getLast?_concat]
  have hlength : ¬lexeme.toList.length < 2 := by
    simp [hlexeme]
  simp only [plainString, hinner, hlast]
  simp [hlexeme, hescape]

theorem identifier_iff :
    identifier lexeme field = .ok text ↔ Quoted lexeme text ∧ Printable text := by
  have hprintable : ∀ t : String, Printable t ↔
      (t.toList.isEmpty || !t.toList.all (·.toNat < 128) || t.toList.any isAsciiControl) =
        false := by
    intro t
    simp only [Printable, Bool.or_eq_false_iff, List.isEmpty_eq_false_iff, Bool.not_eq_false',
      List.all_eq_true, decide_eq_true_eq, List.any_eq_false, isAsciiControl, Bool.or_eq_true,
      and_assoc, ne_eq, ← forall₂_and]
    refine and_congr_right fun _ => forall₂_congr fun c _ => ?_
    omega
  unfold identifier
  rw [Except.bind_eq_ok]
  simp only [plainString_iff]
  constructor
  · rintro ⟨t, hquoted, h⟩
    split at h
    · cases h
    · rename_i hshape
      cases h
      exact ⟨hquoted, (hprintable text).mpr (by simpa using hshape)⟩
  · rintro ⟨hquoted, hprint⟩
    refine ⟨text, hquoted, ?_⟩
    rw [(hprintable text).mp hprint]
    rfl

theorem word_iff {α : Type} {fromWire : String → Option α} {asStr : α → String}
    {unknown : String → EnvelopeError} (hwire : ∀ t a, fromWire t = some a ↔ t = asStr a) {a : α} :
    word fromWire unknown lexeme field = .ok a ↔ Quoted lexeme (asStr a) := by
  unfold word
  rw [Except.bind_eq_ok]
  simp only [plainString_iff]
  constructor
  · rintro ⟨t, hquoted, h⟩
    split at h
    · rename_i hread
      cases h
      rwa [(hwire t a).mp hread] at hquoted
    · cases h
  · intro hquoted
    exact ⟨asStr a, hquoted, by rw [(hwire (asStr a) a).mpr rfl]⟩

/-- A closed vocabulary is read as it is written. -/
theorem find?_asStr {α : Type} {all : List α} {asStr : α → String}
    (hall : ∀ a, all.find? (asStr · = asStr a) = some a) (t : String) (a : α) :
    all.find? (asStr · = t) = some a ↔ t = asStr a := by
  constructor
  · intro h
    simpa [eq_comm] using List.find?_some h
  · rintro rfl
    exact hall a

theorem venue_fromWire (t : String) (v : Venue) : Venue.fromWire t = some v ↔ t = v.asStr :=
  find?_asStr Venue.fromWire_asStr t v

theorem stream_fromWire (t : String) (s : Stream) : Stream.fromWire t = some s ↔ t = s.asStr :=
  find?_asStr Stream.fromWire_asStr t s

theorem kind_fromWire (t : String) (k : RecordKind) :
    RecordKind.fromWire t = some k ↔ t = k.asStr :=
  find?_asStr RecordKind.fromWire_asStr t k

end Lexemes

/-! ## Slots -/

/-- The member `source_cursor`. -/
def readSourceCursor (json : SerdeJson) (lexeme : String) :
    Except EnvelopeError (Option SourceCursor) :=
  if lexeme = "null" then .ok none else some <$> parseCursor json lexeme

/-- The member `raw_payload`. -/
def readRawPayload (json : SerdeJson) (lexeme : String) : Except EnvelopeError String :=
  match json.string lexeme with
  | some text => .ok text
  | none => .error (.notJson "raw_payload is not a string")

namespace Slots

/-- The lexemes that a filled slot may have been read from. -/
def readFrom (json : SerdeJson) (s : Slots) (key : String) : Option (String → Prop) :=
  match key with
  | "envelope_version" => s.envelopeVersion.map fun n lexeme => uint lexeme key = .ok n
  | "delivery_index" => s.deliveryIndex.map fun n lexeme => uint lexeme key = .ok n
  | "record_id" => s.recordId.map fun t lexeme => identifier lexeme key = .ok t
  | "visible_ns" => s.visibleNs.map fun n lexeme => uint lexeme key = .ok n
  | "monotonic_ns" => s.monotonicNs.map fun n lexeme => uint lexeme key = .ok n
  | "venue" => s.venue.map fun v lexeme => word Venue.fromWire .unknownVenue lexeme key = .ok v
  | "stream" => s.stream.map fun v lexeme => word Stream.fromWire .unknownStream lexeme key = .ok v
  | "connection_epoch" => s.connectionEpoch.map fun t lexeme => identifier lexeme key = .ok t
  | "local_counter" => s.localCounter.map fun n lexeme => uint lexeme key = .ok n
  | "source_cursor" => s.sourceCursor.map fun c lexeme => readSourceCursor json lexeme = .ok c
  | "kind" => s.kind.map fun k lexeme =>
    word RecordKind.fromWire .unknownRecordKind lexeme key = .ok k
  | "raw_payload" => s.rawPayload.map fun t lexeme => readRawPayload json lexeme = .ok t
  | _ => none

/-- The slots without one of them. -/
def clear (s : Slots) (key : String) : Slots where
  envelopeVersion := if key = "envelope_version" then none else s.envelopeVersion
  deliveryIndex := if key = "delivery_index" then none else s.deliveryIndex
  recordId := if key = "record_id" then none else s.recordId
  visibleNs := if key = "visible_ns" then none else s.visibleNs
  monotonicNs := if key = "monotonic_ns" then none else s.monotonicNs
  venue := if key = "venue" then none else s.venue
  stream := if key = "stream" then none else s.stream
  connectionEpoch := if key = "connection_epoch" then none else s.connectionEpoch
  localCounter := if key = "local_counter" then none else s.localCounter
  sourceCursor := if key = "source_cursor" then none else s.sourceCursor
  kind := if key = "kind" then none else s.kind
  rawPayload := if key = "raw_payload" then none else s.rawPayload

theorem readFrom_clear (json : SerdeJson) (s : Slots) (key key' : String) :
    (s.clear key).readFrom json key' = if key' = key then none else s.readFrom json key' := by
  unfold readFrom
  split <;> (simp only [clear, eq_comm]; split <;> rfl)

/-- The value of one member goes into its slot, if that is empty. -/
theorem setOnce_bind {α : Type} {x : Except EnvelopeError α} {slot : Option α} {field : String}
    {put : Option α → Slots} {s : Slots} :
    (do
      let value ← x
      let slot' ← setOnce slot value field
      return put slot' : Except EnvelopeError Slots) = .ok s ↔
      ∃ a, x = .ok a ∧ slot = none ∧ put (some a) = s := by
  simp only [Except.bind_eq_ok, Except.pure_eq_ok, Except.ok.injEq]
  constructor
  · rintro ⟨a, hx, slot', hslot, rfl⟩
    unfold setOnce at hslot
    split at hslot
    · cases hslot
    · rename_i hempty
      cases hslot
      exact ⟨a, hx, by simpa using hempty, rfl⟩
  · rintro ⟨a, hx, rfl, rfl⟩
    exact ⟨a, hx, some a, rfl, rfl⟩

theorem set_sourceCursor (json : SerdeJson) (s : Slots) (lexeme : String) :
    s.set json "source_cursor" lexeme = (do
      let cursor ← readSourceCursor json lexeme
      let slot ← setOnce s.sourceCursor cursor "source_cursor"
      return { s with sourceCursor := slot }) := by
  simp only [Slots.set, readSourceCursor]
  split <;> rfl

theorem set_rawPayload (json : SerdeJson) (s : Slots) (lexeme : String) :
    s.set json "raw_payload" lexeme = (do
      let text ← readRawPayload json lexeme
      let slot ← setOnce s.rawPayload text "raw_payload"
      return { s with rawPayload := slot }) := by
  simp only [Slots.set, readRawPayload]
  cases json.string lexeme <;> rfl

/-- One member fills its slot, which was empty, with what it says. -/
theorem set_eq_ok {json : SerdeJson} {s₀ s : Slots} {key lexeme : String} :
    s₀.set json key lexeme = .ok s ↔
      s₀ = s.clear key ∧ ∃ reads, s.readFrom json key = some reads ∧ reads lexeme := by
  unfold readFrom
  split
  case h_13 =>
    simp only [reduceCtorEq, false_and, exists_const, and_false, iff_false]
    unfold Slots.set
    split <;> simp_all
  -- every other member is read, and put into its slot
  all_goals
    first
    | rw [set_sourceCursor]
    | rw [set_rawPayload]
    | simp only [Slots.set]
    simp only [setOnce_bind]
    constructor
    · rintro ⟨a, ha, hnone, rfl⟩
      exact ⟨by cases s₀; simp_all [clear], _, rfl, ha⟩
    · rintro ⟨rfl, reads, hreads, hlexeme⟩
      obtain ⟨a, hslot, rfl⟩ := Option.map_eq_some_iff.mp hreads
      exact ⟨a, hlexeme, by simp [clear], by cases s; simp_all [clear]⟩

theorem eq_empty_iff (json : SerdeJson) {s : Slots} :
    s = {} ↔ ∀ key, s.readFrom json key = none := by
  constructor
  · rintro rfl key
    unfold readFrom
    split <;> rfl
  · intro h
    have h₁ := h "envelope_version"
    have h₂ := h "delivery_index"
    have h₃ := h "record_id"
    have h₄ := h "visible_ns"
    have h₅ := h "monotonic_ns"
    have h₆ := h "venue"
    have h₇ := h "stream"
    have h₈ := h "connection_epoch"
    have h₉ := h "local_counter"
    have h₁₀ := h "source_cursor"
    have h₁₁ := h "kind"
    have h₁₂ := h "raw_payload"
    simp only [readFrom, Option.map_eq_none_iff] at h₁ h₂ h₃ h₄ h₅ h₆ h₇ h₈ h₉ h₁₀ h₁₁ h₁₂
    cases s
    simp_all

/-- Members read in turn fill the slots they name, each once. -/
theorem foldlM_set_eq_ok {json : SerdeJson} {entries : List (String × String)} {s : Slots} :
    entries.foldlM (fun s m => s.set json m.1 m.2) ({} : Slots) = .ok s ↔
      (entries.map Prod.fst).Nodup ∧
        (∀ e ∈ entries, ∃ reads, s.readFrom json e.1 = some reads ∧ reads e.2) ∧
        ∀ key, s.readFrom json key ≠ none → key ∈ entries.map Prod.fst := by
  -- from the last member, whose slot is empty before it
  induction entries using List.reverseRecOn generalizing s with
  | nil =>
    have hempty := eq_empty_iff json (s := s)
    simp only [List.foldlM_nil, Except.pure_eq_ok, Except.ok.injEq, List.map_nil, List.nodup_nil,
      List.not_mem_nil, false_implies, implies_true, true_and, imp_false, not_not]
    rw [← hempty]
    exact eq_comm
  | append_singleton entries e ih =>
    rw [List.foldlM_append]
    simp only [List.foldlM_cons, List.foldlM_nil, bind_pure, Except.bind_eq_ok, set_eq_ok,
      List.map_append, List.map_cons, List.map_nil]
    rw [(List.perm_append_singleton _ _).nodup_iff, List.nodup_cons]
    constructor
    · rintro ⟨s₀, hs₀, rfl, reads, hreads, hlexeme⟩
      obtain ⟨hnodup, hall, hfilled⟩ := ih.mp hs₀
      have hnew : ∀ e' ∈ entries, e'.1 ≠ e.1 := by
        intro e' he' heq
        obtain ⟨r, hr, -⟩ := hall e' he'
        simp [readFrom_clear, heq] at hr
      refine ⟨⟨?_, hnodup⟩, ?_, ?_⟩
      · intro hmem
        obtain ⟨e', he', heq⟩ := List.mem_map.mp hmem
        exact hnew e' he' heq
      · intro e' he'
        rcases List.mem_append.mp he' with he' | he'
        · obtain ⟨r, hr, hr'⟩ := hall e' he'
          rw [readFrom_clear, if_neg (hnew e' he')] at hr
          exact ⟨r, hr, hr'⟩
        · rw [List.mem_singleton.mp he']
          exact ⟨reads, hreads, hlexeme⟩
      · intro key hkey
        by_cases heq : key = e.1
        · simp [heq]
        · have hbefore := hfilled key (by rwa [readFrom_clear, if_neg heq])
          exact List.mem_append_left _ hbefore
    · rintro ⟨⟨hnew, hnodup⟩, hall, hfilled⟩
      refine ⟨s.clear e.1, ih.mpr ⟨hnodup, ?_, ?_⟩, rfl, hall e (by simp)⟩
      · intro e' he'
        have hne : e'.1 ≠ e.1 := fun heq => hnew (List.mem_map.mpr ⟨e', he', heq⟩)
        rw [readFrom_clear, if_neg hne]
        exact hall e' (List.mem_append_left _ he')
      · intro key hkey
        rw [readFrom_clear] at hkey
        split at hkey
        · exact absurd rfl hkey
        · rename_i hne
          rcases List.mem_append.mp (hfilled key hkey) with hmem | hmem
          · exact hmem
          · exact absurd (List.mem_singleton.mp hmem) hne

/-- Slots that hold a view, and no more. -/
structure Holds (s : Slots) (view : EnvelopeView) : Prop where
  version : (s.envelopeVersion = none ∧ s.monotonicNs = none ∧ view.envelopeVersion = 1 ∧
      view.monotonicNs = none) ∨
    (s.envelopeVersion.map (·.val) = some 2 ∧ view.envelopeVersion = 2 ∧
      s.monotonicNs ≠ none ∧ s.monotonicNs.map (·.val) = view.monotonicNs)
  deliveryIndex : s.deliveryIndex.map (·.val) = some view.deliveryIndex
  recordId : s.recordId = some view.recordId
  visibleNs : s.visibleNs.map (·.val) = some view.visibleNs
  venue : s.venue = some view.venue
  stream : s.stream = some view.stream
  connectionEpoch : s.connectionEpoch = some view.connectionEpoch
  localCounter : s.localCounter.map (·.val) = some view.localCounter
  sourceCursor : s.sourceCursor = some view.sourceCursor
  kind : s.kind = some view.kind
  rawPayload : s.rawPayload = some view.rawPayload

theorem required_iff {α : Type} {slot : Option α} {field : String} {a : α} :
    required slot field = .ok a ↔ slot = some a := by
  cases slot <;> simp [required]

/-- What `finish` makes of the version and the clock reading. -/
def shape (s : Slots) : Except EnvelopeError (Nat × Option Nat) :=
  match s.envelopeVersion, s.monotonicNs with
  | none, none => .ok (1, none)
  | some version, monotonicNs =>
    if version.val = 2 then
      match monotonicNs with
      | some ns => .ok (2, some ns.val)
      | none => .error .invalidEnvelopeVersionShape
    else .error (.unsupportedEnvelopeVersion version)
  | none, some _ => .error .invalidEnvelopeVersionShape

theorem finish_eq (s : Slots) : s.finish = s.shape >>= s.build := by
  unfold finish shape
  cases s.envelopeVersion with
  | none => cases s.monotonicNs <;> rfl
  | some version =>
    dsimp only
    split
    · cases s.monotonicNs <;> rfl
    · rfl

theorem shape_eq_ok {s : Slots} {shape : Nat × Option Nat} : s.shape = .ok shape ↔
    (s.envelopeVersion = none ∧ s.monotonicNs = none ∧ shape = (1, none)) ∨
      (s.envelopeVersion.map (·.val) = some 2 ∧ s.monotonicNs ≠ none ∧
        shape = (2, s.monotonicNs.map (·.val))) := by
  unfold Slots.shape
  cases s.envelopeVersion with
  | none => cases s.monotonicNs <;> simp [eq_comm]
  | some version =>
    dsimp only
    split
    · rename_i htwo
      cases s.monotonicNs <;> simp [htwo, eq_comm]
    · rename_i hother
      simp [hother]

theorem finish_eq_ok {s : Slots} {view : EnvelopeView} : s.finish = .ok view ↔ s.Holds view := by
  rw [finish_eq]
  simp only [Except.bind_eq_ok, shape_eq_ok]
  constructor
  · rintro ⟨shape, hshape, h⟩
    unfold build at h
    simp only [Except.bind_eq_ok, required_iff, Except.pure_eq_ok] at h
    obtain ⟨deliveryIndex, h₁, recordId, h₂, visibleNs, h₃, venue, h₄, stream, h₅, connectionEpoch,
      h₆, localCounter, h₇, sourceCursor, h₈, kind, h₉, rawPayload, h₁₀, heq⟩ := h
    cases heq
    refine ⟨?_, by simp [h₁], h₂, by simp [h₃], h₄, h₅, h₆, by simp [h₇], h₈, h₉, h₁₀⟩
    rcases hshape with ⟨hversion, hclock, rfl⟩ | ⟨hversion, hclock, rfl⟩
    · exact .inl ⟨hversion, hclock, rfl, rfl⟩
    · exact .inr ⟨hversion, rfl, hclock, rfl⟩
  · intro h
    obtain ⟨deliveryIndex, h₁, hdelivery⟩ := Option.map_eq_some_iff.mp h.deliveryIndex
    obtain ⟨visibleNs, h₃, hvisible⟩ := Option.map_eq_some_iff.mp h.visibleNs
    obtain ⟨localCounter, h₇, hlocal⟩ := Option.map_eq_some_iff.mp h.localCounter
    refine ⟨(view.envelopeVersion, view.monotonicNs), ?_, ?_⟩
    · rcases h.version with ⟨hversion, hclock, hone, hnone⟩ | ⟨hversion, htwo, hclock, heq⟩
      · exact .inl ⟨hversion, hclock, by rw [hone, hnone]⟩
      · exact .inr ⟨hversion, hclock, by rw [htwo, heq]⟩
    · unfold build
      simp only [h₁, h.recordId, h₃, h.venue, h.stream, h.connectionEpoch, h₇, h.sourceCursor, h.kind,
        h.rawPayload, required, Except.ok_bind]
      cases view
      cases hdelivery
      cases hvisible
      cases hlocal
      rfl

end Slots

/-! ## The schema -/

/-- The fields of both versions. -/
def commonFields : List String :=
  ["delivery_index", "record_id", "visible_ns", "venue", "stream", "connection_epoch",
    "local_counter", "source_cursor", "kind", "raw_payload"]

/-- The fields of a version. -/
def fieldNames (version : Nat) : List String :=
  if version = 2 then "envelope_version" :: "monotonic_ns" :: commonFields else commonFields

/-- What a value has to be for its field to be the view's. -/
def Says (cursor : Option SourceCursor → String → Prop) (view : EnvelopeView)
    (key lexeme : String) : Prop :=
  match key with
  | "envelope_version" => PlainDecimal lexeme view.envelopeVersion
  | "delivery_index" => PlainDecimal lexeme view.deliveryIndex
  | "record_id" => Quoted lexeme view.recordId ∧ Printable view.recordId
  | "visible_ns" => PlainDecimal lexeme view.visibleNs
  | "monotonic_ns" => ∃ n, view.monotonicNs = some n ∧ PlainDecimal lexeme n
  | "venue" => Quoted lexeme view.venue.asStr
  | "stream" => Quoted lexeme view.stream.asStr
  | "connection_epoch" => Quoted lexeme view.connectionEpoch ∧ Printable view.connectionEpoch
  | "local_counter" => PlainDecimal lexeme view.localCounter
  | "source_cursor" => cursor view.sourceCursor lexeme
  | "kind" => Quoted lexeme view.kind.asStr
  | "raw_payload" => (parse lexeme.toList).bind Serde.string = some view.rawPayload
  | _ => False

/-- A view has the clock reading of its version. -/
def EnvelopeView.Versioned (view : EnvelopeView) : Prop :=
  (view.envelopeVersion = 1 ∧ view.monotonicNs = none) ∨
    (view.envelopeVersion = 2 ∧ view.monotonicNs ≠ none)

/-- A line is an object with the fields of the view's version, each once, in any order, and no
    other, and its values are the view's. -/
def IsEnvelope (json : SerdeJson) (cursor : Option SourceCursor → String → Prop)
    (line : List UInt8) (view : EnvelopeView) : Prop :=
  ∃ text entries, String.fromUTF8? ⟨(stripNewline line).toArray⟩ = some text ∧
    json.object text = .ok (entries, .ok ()) ∧ view.Versioned ∧
    (entries.map Prod.fst).Perm (fieldNames view.envelopeVersion) ∧
    ∀ e ∈ entries, Says cursor view e.1 e.2

/-- The value is `null`, or the cursor's object. -/
def ClosedCursor : Option SourceCursor → String → Prop
  | none, lexeme => lexeme = "null"
  | some c, lexeme => ∃ t, parse lexeme.toList = some t ∧ Closed c t

/-- The value is not the cursor's object, and still read as the cursor. -/
def LooseCursor : Option SourceCursor → String → Prop
  | none, _ => False
  | some c, lexeme => ∃ t, parse lexeme.toList = some t ∧ Loose c t

/-- What `serde_json` makes of the text of a value: a string, and the struct derived for a
    cursor. -/
structure ReadsValues (json : SerdeJson) : Prop where
  string : ∀ lexeme, json.string lexeme = (parse lexeme.toList).bind Serde.string
  cursor : ∀ lexeme, json.cursor lexeme = (parse lexeme.toList).bind cursorStruct

section Schema

variable {json : SerdeJson} {view : EnvelopeView} {s : Slots} {line : List UInt8}

theorem readSourceCursor_iff (hjson : ReadsValues json) {c : Option SourceCursor}
    {lexeme : String} : readSourceCursor json lexeme = .ok c ↔
      ClosedCursor c lexeme ∨ LooseCursor c lexeme := by
  have hread : ∀ c, parseCursor json lexeme = .ok c ↔
      ClosedCursor (some c) lexeme ∨ LooseCursor (some c) lexeme := by
    intro c
    rw [parseCursor_eq_ok, hjson.cursor, ClosedCursor, LooseCursor, ← exists_or]
    simp only [Option.bind_eq_some_iff, ← and_or_left, ← reads_iff]
    constructor
    · rintro ⟨w, ⟨t, ht, hw⟩, hc⟩
      exact ⟨t, ht, w, hw, hc⟩
    · rintro ⟨t, ht, w, hw, hc⟩
      exact ⟨w, ⟨t, ht, hw⟩, hc⟩
  unfold readSourceCursor
  split
  · rename_i hnull
    cases c with
    | none => simp [ClosedCursor, hnull]
    | some c =>
      -- `null` is no cursor
      have hparse : parse "null".toList = some .null := rfl
      rw [← hread, parseCursor_eq_ok, hjson.cursor, hnull, hparse]
      simp [cursorStruct, Serde.struct]
  · rename_i hnull
    cases c with
    | none =>
      simp [ClosedCursor, LooseCursor, hnull, Functor.map, Except.map]
      split <;> simp
    | some c =>
      rw [← hread]
      cases parseCursor json lexeme <;> simp [Functor.map, Except.map]

theorem readRawPayload_iff (hjson : ReadsValues json) {t lexeme : String} :
    readRawPayload json lexeme = .ok t ↔ (parse lexeme.toList).bind Serde.string = some t := by
  unfold readRawPayload
  rw [hjson.string]
  split <;> rename_i heq <;> simp [heq]

theorem Slots.Holds.envelopeVersion_eq (h : s.Holds view) {key : String}
    (hkey : key ∈ fieldNames view.envelopeVersion) (hnot : key ∉ commonFields) :
    s.envelopeVersion.map (·.val) = some view.envelopeVersion ∧
      ∃ n, s.monotonicNs = some n ∧ view.monotonicNs = some n.val := by
  rcases h.version with ⟨-, -, hone, -⟩ | ⟨hversion, htwo, hclock, heq⟩
  · rw [hone] at hkey
    exact absurd hkey hnot
  · obtain ⟨n, hn⟩ := Option.ne_none_iff_exists'.mp hclock
    exact ⟨by rw [hversion, htwo], n, hn, by rw [← heq, hn]; rfl⟩

/-- What a filled slot was read from says what the view says. -/
theorem Slots.Holds.says_iff (hjson : ReadsValues json) (h : s.Holds view) {key lexeme : String}
    (hkey : key ∈ fieldNames view.envelopeVersion) :
    (∃ reads, s.readFrom json key = some reads ∧ reads lexeme) ↔
      Says (fun c lexeme => ClosedCursor c lexeme ∨ LooseCursor c lexeme) view key lexeme := by
  obtain ⟨deliveryIndex, h₁, hdelivery⟩ := Option.map_eq_some_iff.mp h.deliveryIndex
  obtain ⟨visibleNs, h₃, hvisible⟩ := Option.map_eq_some_iff.mp h.visibleNs
  obtain ⟨localCounter, h₇, hlocal⟩ := Option.map_eq_some_iff.mp h.localCounter
  unfold readFrom Says
  split
  · obtain ⟨hversion, -⟩ := h.envelopeVersion_eq hkey (by decide)
    obtain ⟨version, hv, hval⟩ := Option.map_eq_some_iff.mp hversion
    simp [hv, ← hval, uint_eq_ok]
  · simp [h₁, ← hdelivery, uint_eq_ok]
  · simp [h.recordId, identifier_iff]
  · simp [h₃, ← hvisible, uint_eq_ok]
  · obtain ⟨-, n, hn, hclock⟩ := h.envelopeVersion_eq hkey (by decide)
    simp [hn, hclock, uint_eq_ok]
  · simp [h.venue, word_iff venue_fromWire]
  · simp [h.stream, word_iff stream_fromWire]
  · simp [h.connectionEpoch, identifier_iff]
  · simp [h₇, ← hlocal, uint_eq_ok]
  · simp [h.sourceCursor, readSourceCursor_iff hjson]
  · simp [h.kind, word_iff kind_fromWire]
  · simp [h.rawPayload, readRawPayload_iff hjson]
  · simp

/-- The slots of a view are the fields of its version. -/
theorem Slots.Holds.filled_iff (h : s.Holds view) {key : String} :
    s.readFrom json key ≠ none ↔ key ∈ fieldNames view.envelopeVersion := by
  obtain ⟨deliveryIndex, h₁, -⟩ := Option.map_eq_some_iff.mp h.deliveryIndex
  obtain ⟨visibleNs, h₃, -⟩ := Option.map_eq_some_iff.mp h.visibleNs
  obtain ⟨localCounter, h₇, -⟩ := Option.map_eq_some_iff.mp h.localCounter
  rcases h.version with ⟨hversion, hclock, hone, -⟩ | ⟨hversion, htwo, hclock, -⟩
  · rw [hone]
    unfold readFrom
    split <;>
      simp_all [fieldNames, commonFields, h.recordId, h.venue, h.stream, h.connectionEpoch,
        h.sourceCursor, h.kind, h.rawPayload]
  · obtain ⟨version, hversion, -⟩ := Option.map_eq_some_iff.mp hversion
    rw [htwo]
    unfold readFrom
    split <;>
      simp_all [fieldNames, commonFields, h.recordId, h.venue, h.stream, h.connectionEpoch,
        h.sourceCursor, h.kind, h.rawPayload]

theorem parse_eq_ok : EnvelopeView.parse json line = .ok view ↔
    ∃ text entries, String.fromUTF8? ⟨(stripNewline line).toArray⟩ = some text ∧
      json.object text = .ok (entries, .ok ()) ∧
      ∃ s, entries.foldlM (fun s m => s.set json m.1 m.2) ({} : Slots) = .ok s ∧ s.Holds view := by
  have hfill : ∀ entries, (Slots.fill json entries >>= Slots.finish) = .ok view ↔
      ∃ s, entries.foldlM (fun s m => s.set json m.1 m.2) ({} : Slots) = .ok s ∧
        s.Holds view := by
    intro entries
    simp only [Except.bind_eq_ok, Splices.Envelope.fill_eq_ok, Slots.finish_eq_ok]
  unfold EnvelopeView.parse
  cases String.fromUTF8? ⟨(stripNewline line).toArray⟩ with
  | none => simp
  | some text =>
    cases hobject : json.object text with
    | error e => simp [hobject]
    | ok members =>
      obtain ⟨entries, trailing⟩ := members
      dsimp only
      rw [hobject]
      constructor
      · intro h
        obtain ⟨view', hview, h⟩ := Except.bind_eq_ok.mp h
        cases trailing with
        | error e => cases h
        | ok u =>
          cases h
          exact ⟨text, entries, rfl, hobject, (hfill entries).mp hview⟩
      · rintro ⟨text', entries', htext, hobject', hs⟩
        cases htext
        rw [hobject] at hobject'
        cases hobject'
        exact Except.bind_eq_ok.mpr ⟨view, (hfill entries).mpr hs, rfl⟩

/-- The slots a view would come from. -/
theorem exists_holds (hversioned : view.Versioned) (hvisible : view.visibleNs < 2 ^ 64)
    (hlocal : view.localCounter < 2 ^ 64) (hclock : ∀ n ∈ view.monotonicNs, n < 2 ^ 64) :
    ∃ s : Slots, s.Holds view := by
  obtain ⟨version, clock, hversion⟩ : ∃ version clock : Option U64,
      (version = none ∧ clock = none ∧ view.envelopeVersion = 1 ∧ view.monotonicNs = none) ∨
        (version.map (·.val) = some 2 ∧ view.envelopeVersion = 2 ∧ clock ≠ none ∧
          clock.map (·.val) = view.monotonicNs) := by
    rcases hversioned with ⟨hone, hnone⟩ | ⟨htwo, hsome⟩
    · exact ⟨none, none, .inl ⟨rfl, rfl, hone, hnone⟩⟩
    · obtain ⟨n, hn⟩ := Option.ne_none_iff_exists'.mp hsome
      exact ⟨some ⟨2, by decide⟩, some ⟨n, hclock n hn⟩, .inr ⟨rfl, htwo, by simp, by simp [hn]⟩⟩
  exact ⟨{
    envelopeVersion := version
    deliveryIndex := some ⟨view.deliveryIndex, view.index_lt⟩
    recordId := some view.recordId
    visibleNs := some ⟨view.visibleNs, hvisible⟩
    monotonicNs := clock
    venue := some view.venue
    stream := some view.stream
    connectionEpoch := some view.connectionEpoch
    localCounter := some ⟨view.localCounter, hlocal⟩
    sourceCursor := some view.sourceCursor
    kind := some view.kind
    rawPayload := some view.rawPayload }, hversion, rfl, rfl, rfl, rfl, rfl, rfl, rfl, rfl, rfl,
    rfl⟩

theorem fieldNames_nodup (version : Nat) : (fieldNames version).Nodup := by
  unfold fieldNames
  split <;> decide

/-- What is accepted: an envelope whose cursor is its object or is read loosely. -/
theorem parse_eq_ok_iff (hjson : ReadsValues json) : EnvelopeView.parse json line = .ok view ↔
    IsEnvelope json (fun c lexeme => ClosedCursor c lexeme ∨ LooseCursor c lexeme) line view := by
  rw [parse_eq_ok]
  unfold IsEnvelope
  refine exists₂_congr fun text entries => and_congr_right fun _ => and_congr_right fun _ => ?_
  simp only [Slots.foldlM_set_eq_ok]
  constructor
  · rintro ⟨s, ⟨hnodup, hall, hfilled⟩, hholds⟩
    have hkeys : ∀ key, key ∈ entries.map Prod.fst ↔ key ∈ fieldNames view.envelopeVersion := by
      intro key
      rw [← @Slots.Holds.filled_iff json view s hholds key]
      constructor
      · intro hkey
        obtain ⟨e, he, rfl⟩ := List.mem_map.mp hkey
        obtain ⟨reads, hreads, -⟩ := hall e he
        simp [hreads]
      · exact hfilled key
    refine ⟨?_, ?_, ?_⟩
    · rcases hholds.version with ⟨-, -, hone, hnone⟩ | ⟨-, htwo, hclock, heq⟩
      · exact .inl ⟨hone, hnone⟩
      · exact .inr ⟨htwo, by rw [← heq]; simpa using hclock⟩
    · exact (List.perm_ext_iff_of_nodup hnodup (fieldNames_nodup _)).mpr hkeys
    · intro e he
      exact (hholds.says_iff hjson ((hkeys e.1).mp (List.mem_map_of_mem he))).mp (hall e he)
  · rintro ⟨hversioned, hperm, hentries⟩
    have hsaid : ∀ key ∈ fieldNames view.envelopeVersion, ∃ lexeme,
        Says (fun c lexeme => ClosedCursor c lexeme ∨ LooseCursor c lexeme) view key lexeme := by
      intro key hkey
      obtain ⟨e, he, rfl⟩ := List.mem_map.mp (hperm.mem_iff.mpr hkey)
      exact ⟨e.2, hentries e he⟩
    have hcommon : ∀ key ∈ commonFields, key ∈ fieldNames view.envelopeVersion := by
      intro key hkey
      unfold fieldNames
      split <;> simp [hkey]
    obtain ⟨_, hvisible⟩ := hsaid "visible_ns" (hcommon _ (by decide))
    obtain ⟨_, hlocal⟩ := hsaid "local_counter" (hcommon _ (by decide))
    have hclock : ∀ n ∈ view.monotonicNs, n < 2 ^ 64 := by
      intro n hn
      have htwo : view.envelopeVersion = 2 := by
        rcases hversioned with ⟨-, hnone⟩ | ⟨htwo, -⟩
        · simp [hnone] at hn
        · exact htwo
      obtain ⟨_, m, hm, hplain⟩ := hsaid "monotonic_ns" (by rw [htwo]; decide)
      cases hm.symm.trans hn
      exact hplain.lt
    obtain ⟨s, hholds⟩ := exists_holds hversioned hvisible.lt hlocal.lt hclock
    refine ⟨s, ⟨hperm.nodup_iff.mpr (fieldNames_nodup _), ?_, ?_⟩, hholds⟩
    · intro e he
      have hkey := hperm.mem_iff.mp (List.mem_map_of_mem (f := Prod.fst) he)
      exact (hholds.says_iff hjson hkey).mpr (hentries e he)
    · intro key hkey
      exact hperm.mem_iff.mpr (hholds.filled_iff.mp hkey)

/-- Only the member `source_cursor` depends on what is taken for a cursor. -/
theorem says_congr {cursor cursor' : Option SourceCursor → String → Prop} {key lexeme : String}
    (h : key = "source_cursor" → (cursor view.sourceCursor lexeme ↔
      cursor' view.sourceCursor lexeme)) :
    Says cursor view key lexeme ↔ Says cursor' view key lexeme := by
  unfold Says
  split
  case h_10 => exact h rfl
  all_goals exact Iff.rfl

/-- An envelope has one cursor. -/
theorem exists_sourceCursor {version : Nat} {entries : List (String × String)}
    (hperm : (entries.map Prod.fst).Perm (fieldNames version)) :
    ∃ lexeme, ("source_cursor", lexeme) ∈ entries ∧
      ∀ lexeme', ("source_cursor", lexeme') ∈ entries → lexeme' = lexeme := by
  have hkey : "source_cursor" ∈ fieldNames version := by
    unfold fieldNames
    split <;> decide
  obtain ⟨⟨_, lexeme⟩, he, rfl⟩ := List.mem_map.mp (hperm.mem_iff.mpr hkey)
  refine ⟨lexeme, he, ?_⟩
  intro lexeme' he'
  have hsame := List.inj_on_of_nodup_map (hperm.nodup_iff.mpr (fieldNames_nodup _)) he' he rfl
  exact congrArg Prod.snd hsame

theorem isEnvelope_or {cursor cursor' : Option SourceCursor → String → Prop} :
    IsEnvelope json (fun c lexeme => cursor c lexeme ∨ cursor' c lexeme) line view ↔
      IsEnvelope json cursor line view ∨ IsEnvelope json cursor' line view := by
  constructor
  · rintro ⟨text, entries, htext, hobject, hversioned, hperm, hentries⟩
    obtain ⟨lexeme, he, honly⟩ := exists_sourceCursor hperm
    have heither : cursor view.sourceCursor lexeme ∨ cursor' view.sourceCursor lexeme :=
      hentries _ he
    have hrest : ∀ K : Option SourceCursor → String → Prop, K view.sourceCursor lexeme →
        ∀ e ∈ entries, Says K view e.1 e.2 := by
      rintro K hK ⟨key, lexeme'⟩ he'
      refine (says_congr ?_).mp (hentries _ he')
      rintro rfl
      rw [honly _ he']
      exact ⟨fun _ => hK, fun _ => heither⟩
    rcases heither with h | h
    · exact .inl ⟨text, entries, htext, hobject, hversioned, hperm, hrest _ h⟩
    · exact .inr ⟨text, entries, htext, hobject, hversioned, hperm, hrest _ h⟩
  · rintro (⟨text, entries, htext, hobject, hversioned, hperm, hentries⟩ |
      ⟨text, entries, htext, hobject, hversioned, hperm, hentries⟩)
    · refine ⟨text, entries, htext, hobject, hversioned, hperm, fun e he => ?_⟩
      have hsaid := hentries e he
      unfold Says at hsaid ⊢
      split at hsaid <;> first | exact hsaid | exact .inl hsaid
    · refine ⟨text, entries, htext, hobject, hversioned, hperm, fun e he => ?_⟩
      have hsaid := hentries e he
      unfold Says at hsaid ⊢
      split at hsaid <;> first | exact hsaid | exact .inr hsaid

/-- The cursor of one line is not both closed and loose. -/
theorem not_closed_of_loose {view' : EnvelopeView} (hloose : IsEnvelope json LooseCursor line view)
    (hclosed : IsEnvelope json ClosedCursor line view') : False := by
  obtain ⟨text, entries, htext, hobject, -, hperm, hentries⟩ := hloose
  obtain ⟨text', entries', htext', hobject', -, -, hentries'⟩ := hclosed
  cases htext.symm.trans htext'
  cases hobject.symm.trans hobject'
  obtain ⟨lexeme, he, -⟩ := exists_sourceCursor hperm
  have hloose : LooseCursor view.sourceCursor lexeme := hentries _ he
  have hclosed : ClosedCursor view'.sourceCursor lexeme := hentries' _ he
  cases hc : view.sourceCursor with
  | none => simp [hc, LooseCursor] at hloose
  | some c =>
    rw [hc] at hloose
    obtain ⟨t, ht, hloose⟩ := hloose
    cases hc' : view'.sourceCursor with
    | none =>
      rw [hc'] at hclosed
      have hnull : lexeme = "null" := hclosed
      rw [hnull] at ht
      cases ht
      simp [Loose] at hloose
    | some c' =>
      rw [hc'] at hclosed
      obtain ⟨t', ht', hclosed⟩ := hclosed
      cases ht.symm.trans ht'
      exact hclosed.not_loose hloose

end Schema

/-- The parser accepts a line just if it is an envelope of the closed schema, with the view it
    returns, except where the line is an envelope but for its cursor: a value that is not the
    cursor's object, and that the derived struct reads as a cursor all the same. -/
theorem parse_closed_iff {json : SerdeJson} (hjson : ReadsValues json) (line : List UInt8) :
    (∀ view, EnvelopeView.parse json line = .ok view ↔ IsEnvelope json ClosedCursor line view) ↔
      ¬∃ view, IsEnvelope json LooseCursor line view := by
  simp only [parse_eq_ok_iff hjson, isEnvelope_or]
  constructor
  · rintro h ⟨view, hloose⟩
    exact not_closed_of_loose hloose ((h view).mp (.inr hloose))
  · intro h view
    constructor
    · rintro (hclosed | hloose)
      · exact hclosed
      · exact absurd ⟨view, hloose⟩ h
    · exact .inl

/-! ## Fixed lines -/

/-- A trade whose cursor is the given text, as its members. -/
def tradeOf (cursor : String) : List (String × String) :=
  [("delivery_index", "3"), ("record_id", "\"r\""), ("visible_ns", "7"),
    ("venue", "\"kalshi\""), ("stream", "\"public_trade\""), ("connection_epoch", "\"e\""),
    ("local_counter", "3"), ("source_cursor", cursor), ("kind", "\"venue_frame\""),
    ("raw_payload", "\"p\"")]

def lineOf (entries : List (String × String)) : String :=
  "\x7b" ++ String.intercalate "," (entries.map fun (k, v) => "\"" ++ k ++ "\":" ++ v) ++ "\x7d"

/-- `serde_json`, on one line and the values in it. -/
def lineJson (cursor : String) : SerdeJson where
  object text :=
    if text = lineOf (tradeOf cursor) then .ok (tradeOf cursor, .ok ())
    else .error "another line"
  string lexeme := (parse lexeme.toList).bind Serde.string
  cursor lexeme := (parse lexeme.toList).bind cursorStruct

theorem readsValues_lineJson (cursor : String) : ReadsValues (lineJson cursor) :=
  ⟨fun _ => rfl, fun _ => rfl⟩

/-- A cursor with a member that is none of its own. -/
def strayCursor : String := "\x7b\"type\":\"unsequenced\",\"counter\":3,\"x\":1\x7d"

/-- The line as it is delivered. -/
def delivered (cursor : String) : List UInt8 := (lineOf (tradeOf cursor)).utf8Bytes ++ [10]

theorem text_delivered (cursor : String) :
    String.fromUTF8? ⟨(stripNewline (delivered cursor)).toArray⟩ =
      some (lineOf (tradeOf cursor)) := by
  rw [delivered, Splices.Envelope.stripNewline_append, String.fromUTF8?_utf8Bytes]

theorem object_delivered (cursor : String) :
    (lineJson cursor).object (lineOf (tradeOf cursor)) = .ok (tradeOf cursor, .ok ()) :=
  if_pos rfl

theorem parse_delivered (cursor : String) :
    EnvelopeView.parse (lineJson cursor) (delivered cursor) =
      (Slots.fill (lineJson cursor) (tradeOf cursor) >>= Slots.finish) := by
  unfold EnvelopeView.parse
  rw [text_delivered]
  dsimp only
  rw [object_delivered]
  show (Slots.fill (lineJson cursor) (tradeOf cursor) >>= Slots.finish) >>= pure = _
  rw [bind_pure]

/-- A cursor of no loose value leaves the parser with the schema. -/
theorem parse_closed_iff_sample :
    (EnvelopeView.parse (lineJson "null") (delivered "null")).toOption.isSome = true ∧
      ∀ view, EnvelopeView.parse (lineJson "null") (delivered "null") = .ok view ↔
        IsEnvelope (lineJson "null") ClosedCursor (delivered "null") view := by
  constructor
  · rw [parse_delivered]
    decide +kernel
  · apply (parse_closed_iff (readsValues_lineJson "null") (delivered "null")).mpr
    rintro ⟨view, text, entries, htext, hobject, -, -, hentries⟩
    cases htext.symm.trans (text_delivered "null")
    cases hobject.symm.trans (object_delivered "null")
    have hloose : LooseCursor view.sourceCursor "null" := hentries ("source_cursor", "null") (by decide)
    cases hc : view.sourceCursor with
    | none => simp [hc, LooseCursor] at hloose
    | some c =>
      rw [hc] at hloose
      obtain ⟨t, ht, hloose⟩ := hloose
      cases ht
      simp [Loose] at hloose

/-- A line whose cursor has a member that is none of its own is accepted. -/
theorem stray_cursor_member_accepted :
    ∃ view, EnvelopeView.parse (lineJson strayCursor) (delivered strayCursor) = .ok view ∧
      ¬IsEnvelope (lineJson strayCursor) ClosedCursor (delivered strayCursor) view := by
  have haccepted : (EnvelopeView.parse (lineJson strayCursor)
      (delivered strayCursor)).toOption.isSome = true := by
    rw [parse_delivered]
    decide +kernel
  have hnames : ((parse strayCursor.toList).bind (Serde.struct wireNames some)).map
      (fun members => members.map Prod.fst) = some ["type", "counter", "x"] := by decide +kernel
  cases hview : EnvelopeView.parse (lineJson strayCursor) (delivered strayCursor) with
  | error e =>
    rw [hview] at haccepted
    cases haccepted
  | ok view =>
    refine ⟨view, rfl, ?_⟩
    rintro ⟨text, entries, htext, hobject, -, -, hentries⟩
    cases htext.symm.trans (text_delivered strayCursor)
    cases hobject.symm.trans (object_delivered strayCursor)
    have hclosed : ClosedCursor view.sourceCursor strayCursor :=
      hentries ("source_cursor", strayCursor) (by simp [tradeOf])
    cases hc : view.sourceCursor with
    | none =>
      rw [hc] at hclosed
      have hnull : strayCursor = "null" := hclosed
      exact absurd hnull (by decide)
    | some c =>
      rw [hc] at hclosed
      obtain ⟨t, ht, -, ms, rfl, hperm⟩ := hclosed
      obtain ⟨members, hmembers, hnames⟩ := Option.map_eq_some_iff.mp hnames
      rw [ht, Option.bind_some] at hmembers
      obtain ⟨rfl, -, -⟩ := struct_object.mp hmembers
      have hx : "x" ∈ (named ms).map Prod.fst := by
        rw [hnames]
        decide
      obtain ⟨f, hf, hfx⟩ := List.mem_map.mp hx
      obtain ⟨m, hm, hmf⟩ := List.mem_filterMap.mp hf
      obtain ⟨name, hname, rfl⟩ := Option.map_eq_some_iff.mp hmf
      obtain ⟨name', hwire, hspell, -⟩ :=
        exists_name_of_mem (List.mem_map_of_mem (hperm.mem_iff.mp hm))
      rw [text?_eq_some.mpr hspell] at hname
      cases hname
      rw [show name = "x" from hfx] at hwire
      exact absurd hwire (by decide)

end PredictionIndexer.Continuity
