import PredictionIndexer.ForStd.Members
import PredictionIndexer.Spec.FactRange
import PredictionIndexer.Splices.Kalshi

/-!
# The line a splice writes and the view the ingester reads

`build_envelope` and `encode_envelope` against `EnvelopeView::parse`. The writer's integers are
Python's and the reader's are `u64`: what a splice counts itself stays below 2^64, a number copied
from a venue's message into the cursor need not.

## Key results

- `identifier_iff`: both sides accept the same identifiers
- `encoded_reads_iff`: the line is read as it was written just if the cursor's numbers are `u64`
-/

namespace PredictionIndexer.Splices.Envelope

open JsonText Fallible
open Continuity (SerdeJson SourceCursor CursorWire EnvelopeView Venue Stream RecordKind U64 Slots)

/-! ## Cursors -/

/-- What a Kalshi frame says of its own continuity. -/
def frameClaim (counter : Nat) : Option Nat → SourceCursor
  | some seq => .updateRange seq seq (seq - 1)
  | none => .unsequenced counter

@[simp] theorem uint_natCast (n : Nat) (field : String) : uint (.int n) field = .ok n := by
  simp [uint]

/-- A frame's cursor is made of its `seq`, or of the splice's own counter. -/
theorem frameCursor_eq_ok {limits : Limits} {counter : Nat} {message : String} {cursor : Cursor}
    (h : Kalshi.frameCursor limits counter message = .ok cursor) :
    cursor = cursorMembers .char (frameClaim counter (Kalshi.seqOf limits message)) := by
  have hunsequenced : unsequencedCursor (.int counter) =
      .ok (cursorMembers .char (.unsequenced counter)) := by
    rw [unsequencedCursor, uint_natCast]
    rfl
  unfold Kalshi.frameCursor at h
  unfold Kalshi.seqOf
  split at h
  · rename_i payload hload
    rw [hload]
    unfold Kalshi.cursorOf at h
    split at h
    · rename_i fields
      show cursor = cursorMembers .char
        (frameClaim counter (Kalshi.usableSeq (Json.field? fields "seq")))
      cases hseq : Kalshi.usableSeq (Json.field? fields "seq") with
      | none =>
        rw [hseq, hunsequenced] at h
        exact (Except.ok.inj h).symm
      | some seq =>
        have hprevious : (max ((seq : Int) - 1) 0) = ((seq - 1 : Nat) : Int) := by omega
        rw [hseq] at h
        simp only [updateRangeCursor, hprevious, uint_natCast, Except.ok_bind] at h
        exact (Except.ok.inj h).symm
    · rename_i hobject
      rw [hunsequenced] at h
      split
      · rename_i fields heq
        cases heq
        exact absurd rfl (hobject fields)
      · exact (Except.ok.inj h).symm
  · rename_i hload
    rw [hload]
    rw [hunsequenced] at h
    exact (Except.ok.inj h).symm
  · cases h

/-! ### The reader's struct -/

/-- A `u64`, or an error of the reader. -/
def u64 (n : Nat) : Option U64 := if h : n < 2 ^ 64 then some ⟨n, h⟩ else none

/-- A cursor's members in the reader's struct. -/
def cursorWire : SourceCursor → Option CursorWire
  | .unsequenced counter => do
    return ⟨"unsequenced", ← u64 counter, none, none, none, none, none⟩
  | .snapshotId lastUpdateId => do
    return ⟨"snapshot", none, ← u64 lastUpdateId, none, none, none, none⟩
  | .snapshotTime sourceTimeMs => do
    return ⟨"snapshot", none, none, ← u64 sourceTimeMs, none, none, none⟩
  | .updateRange first last previousLast => do
    return ⟨"update_range", none, none, none, ← u64 first, ← u64 last, ← u64 previousLast⟩

/-- What `serde_json` does with compact text: an object's members come with their lexemes in
    order, a string is unescaped, and a cursor's struct takes numbers that are `u64`. -/
structure ReadsCompact (json : SerdeJson) : Prop where
  object : ∀ members : List (String × Compact Char), members ≠ [] →
    (∀ m ∈ members, (∀ c ∈ m.1.toList, Verbatim c) ∧ m.2 ≠ .object []) →
    json.object (String.ofList (dumps members)) =
      .ok (members.map fun m => (m.1, String.ofList m.2.text), .ok ())
  string : ∀ cs, json.string (String.ofList (quote cs)) = some (String.ofList cs)
  cursor : ∀ c, json.cursor (String.ofList (Compact.object (cursorMembers id c)).text) = cursorWire c

/-! ## What is given -/

namespace Given

/-- The members that both versions start with. -/
def front {σ : Type} (g : Given) (recordId : List σ) : List (String × Compact σ) :=
  [("delivery_index", .scalar (.number g.deliveryIndex)), ("record_id", .scalar (.string recordId)),
    ("visible_ns", .scalar (.number g.visibleNs))]

/-- The members that both versions end with. -/
def back {σ : Type} (ι : Char → σ) (g : Given) (connectionEpoch rawPayload : List σ) :
    List (String × Compact σ) :=
  [("venue", .scalar (.string (g.venue.asStr.toList.map ι))),
    ("stream", .scalar (.string (g.stream.asStr.toList.map ι))),
    ("connection_epoch", .scalar (.string connectionEpoch)),
    ("local_counter", .scalar (.number g.localCounter)),
    ("source_cursor", g.sourceCursor.elim (.scalar .null) fun c => .object (cursorMembers ι c)),
    ("kind", .scalar (.string (g.kind.asStr.toList.map ι))),
    ("raw_payload", .scalar (.string rawPayload))]

/-- The members of the record, in order. -/
def members {σ : Type} (ι : Char → σ) (g : Given) (recordId connectionEpoch rawPayload : List σ) :
    List (String × Compact σ) :=
  match g.monotonicNs with
  | none => g.front recordId ++ g.back ι connectionEpoch rawPayload
  | some n =>
    ("envelope_version", .scalar (.number 2)) :: g.front recordId ++
      ("monotonic_ns", .scalar (.number n)) :: g.back ι connectionEpoch rawPayload

/-- A version with its own clock reading, or without. -/
def Versioned (g : Given) : Prop :=
  (g.envelopeVersion = 1 ∧ g.monotonicNs = none) ∨
    (g.envelopeVersion = 2 ∧ g.monotonicNs ≠ none)

/-- Indices, counters and clock readings of a `u64`. -/
structure InRange (g : Given) : Prop where
  deliveryIndex : g.deliveryIndex < 2 ^ 64
  visibleNs : g.visibleNs < 2 ^ 64
  monotonicNs : ∀ n ∈ g.monotonicNs, n < 2 ^ 64
  localCounter : g.localCounter < 2 ^ 64

/-- A view that says what was given. -/
structure SaidBy (g : Given) (view : EnvelopeView) : Prop where
  envelopeVersion : (view.envelopeVersion : Int) = g.envelopeVersion
  deliveryIndex : view.deliveryIndex = g.deliveryIndex
  recordId : view.recordId.toList.map .char = g.recordId
  visibleNs : view.visibleNs = g.visibleNs
  monotonicNs : view.monotonicNs = g.monotonicNs
  venue : view.venue = g.venue
  stream : view.stream = g.stream
  connectionEpoch : view.connectionEpoch.toList.map .char = g.connectionEpoch
  localCounter : view.localCounter = g.localCounter
  sourceCursor : view.sourceCursor = g.sourceCursor
  kind : view.kind = g.kind
  rawPayload : view.rawPayload.toList.map .char = g.rawPayload

end Given

/-! ## Identifiers -/

/-- A text that both sides take for an identifier. -/
structure IsIdentifier (cs : List Char) : Prop where
  ne_nil : cs ≠ []
  plain : ∀ c ∈ cs, Verbatim c ∧ c.toNat < 127

theorem escape_of_verbatim {cs : List Char} (h : ∀ c ∈ cs, Verbatim c) : escape cs = cs := by
  induction cs with
  | nil => rfl
  | cons c cs ih =>
    show escapeChar c ++ escape cs = c :: cs
    rw [escapeChar_of_verbatim (h c List.mem_cons_self),
      ih fun d hd => h d (List.mem_cons_of_mem _ hd)]
    rfl

/-- A character that needs an escape shows as a backslash. -/
theorem backslash_mem_escape {cs : List Char} (h : ¬∀ c ∈ cs, Verbatim c) : '\\' ∈ escape cs := by
  push Not at h
  obtain ⟨c, hc, hv⟩ := h
  obtain ⟨rest, hrest⟩ := escapeChar_of_not_verbatim hv
  exact List.mem_flatMap.mpr ⟨c, hc, hrest ▸ List.mem_cons_self⟩

theorem plainString_quote (cs : List Char) (field : String) :
    Continuity.plainString (String.ofList (quote cs)) field =
      if '\\' ∈ escape cs then .error (.unsupportedIdentifier field)
      else .ok (String.ofList (escape cs)) := by
  have hinner : ((quote cs).drop 1).dropLast = escape cs := by
    simp [quote]
  have hlast : (quote cs).getLast? = some '"' := by
    rw [quote, ← List.cons_append, List.getLast?_concat]
  have hlen : 2 ≤ (quote cs).length := by
    simp [quote]
  have hhead : (quote cs).head? = some '"' := rfl
  simp only [Continuity.plainString, String.toList_ofList, hinner, hlast, hhead, ne_eq,
    not_true_eq_false, decide_false, Bool.or_false, List.contains_eq_mem, Nat.not_lt.mpr hlen,
    Bool.false_or, decide_eq_true_eq]

/-- Text that needs no escape is read as it stands. -/
theorem plainString_quote_of_verbatim {cs : List Char} (h : ∀ c ∈ cs, Verbatim c)
    (field : String) :
    Continuity.plainString (String.ofList (quote cs)) field = .ok (String.ofList cs) := by
  rw [plainString_quote, escape_of_verbatim h, if_neg]
  intro hmem
  exact (h _ hmem).2.1 rfl

/-- The reader's identifiers. -/
theorem identifier_quote_eq_ok {cs : List Char} {field text : String} :
    Continuity.identifier (String.ofList (quote cs)) field = .ok text ↔
      IsIdentifier cs ∧ text = String.ofList cs := by
  unfold Continuity.identifier
  by_cases hv : ∀ c ∈ cs, Verbatim c
  · rw [plainString_quote_of_verbatim hv]
    show (if _ then _ else _) = _ ↔ _
    rw [String.toList_ofList]
    split
    · rename_i hbad
      simp only [Bool.or_eq_true, List.isEmpty_iff, Bool.not_eq_true', List.all_eq_false,
        List.any_eq_true, decide_eq_true_eq, Continuity.isAsciiControl] at hbad
      refine ⟨fun h => (by cases h), ?_⟩
      rintro ⟨⟨hne, hplain⟩, -⟩
      grind [Verbatim]
    · rename_i hgood
      simp only [Bool.or_eq_true, List.isEmpty_iff, Bool.not_eq_true', List.all_eq_false,
        List.any_eq_true, decide_eq_true_eq, Continuity.isAsciiControl, not_or, not_exists,
        not_and] at hgood
      obtain ⟨⟨hne, hascii⟩, hcontrol⟩ := hgood
      have hid : IsIdentifier cs := by
        refine ⟨hne, fun c hc => ⟨hv c hc, ?_⟩⟩
        have := hascii c hc
        have := hcontrol c hc
        omega
      simp [hid, eq_comm]
  · rw [plainString_quote, if_pos (backslash_mem_escape hv)]
    refine ⟨fun h => (by cases h), ?_⟩
    rintro ⟨hid, -⟩
    exact absurd (fun c hc => (hid.plain c hc).1) hv

/-- Text in ASCII has no half of a surrogate pair in it. -/
theorem exists_map_char_of_isAscii {runes : List Rune} (h : ∀ r ∈ runes, isAscii r = true) :
    ∃ cs : List Char, runes = cs.map .char := by
  induction runes with
  | nil => exact ⟨[], rfl⟩
  | cons r runes ih =>
    obtain ⟨cs, hcs⟩ := ih fun x hx => h x (List.mem_cons_of_mem _ hx)
    cases r with
    | char c => exact ⟨c :: cs, by rw [hcs, List.map_cons]⟩
    | surrogate unit => cases h _ List.mem_cons_self

/-- The writer's identifiers. -/
theorem identifier_str_eq_ok {runes text : List Rune} {field : String} :
    identifier (.str runes) field = .ok text ↔
      (∃ cs, runes = cs.map .char ∧ IsIdentifier cs) ∧ text = runes := by
  simp only [identifier, token]
  by_cases hempty : runes.isEmpty
  · rw [if_pos hempty]
    refine ⟨fun h => (by cases h), ?_⟩
    rintro ⟨⟨cs, rfl, hid⟩, -⟩
    exact absurd (List.map_eq_nil_iff.mp (List.isEmpty_iff.mp hempty)) hid.ne_nil
  · rw [if_neg hempty]
    show (if _ then _ else if _ then _ else if _ then _ else _) = _ ↔ _
    split
    · rename_i hascii
      refine ⟨fun h => (by cases h), ?_⟩
      rintro ⟨⟨cs, rfl, hid⟩, -⟩
      simp only [List.all_map, Bool.not_eq_true', List.all_eq_false, Function.comp, isAscii,
        decide_eq_true_eq] at hascii
      obtain ⟨c, hc, hlarge⟩ := hascii
      have := (hid.plain c hc).2
      omega
    · rename_i hascii
      rw [Bool.not_eq_true, Bool.not_eq_false', List.all_eq_true] at hascii
      obtain ⟨cs, rfl⟩ := exists_map_char_of_isAscii hascii
      split
      · rename_i hquote
        refine ⟨fun h => (by cases h), ?_⟩
        rintro ⟨⟨cs', heq, hid⟩, -⟩
        obtain rfl := List.map_injective_iff.mpr (fun _ _ h => Rune.char.inj h) heq
        simp only [List.any_map, List.any_eq_true, Function.comp, Bool.or_eq_true,
          decide_eq_true_eq, Rune.char.injEq] at hquote
        obtain ⟨c, hc, hbad⟩ := hquote
        obtain ⟨⟨hq, hb, -⟩, -⟩ := hid.plain c hc
        exact absurd hbad (by simp [hq, hb])
      · rename_i hquote
        split
        · rename_i hcontrol
          refine ⟨fun h => (by cases h), ?_⟩
          rintro ⟨⟨cs', heq, hid⟩, -⟩
          obtain rfl := List.map_injective_iff.mpr (fun _ _ h => Rune.char.inj h) heq
          simp only [List.any_map, List.any_eq_true, Function.comp, Bool.or_eq_true,
            decide_eq_true_eq] at hcontrol
          obtain ⟨c, hc, hbad⟩ := hcontrol
          replace hbad : c.toNat < 0x20 ∨ c.toNat = 0x7f := hbad
          obtain ⟨⟨-, -, hlow⟩, hhigh⟩ := hid.plain c hc
          omega
        · rename_i hcontrol
          have hid : IsIdentifier cs := by
            refine ⟨fun h => hempty (by rw [h]; rfl), fun c hc => ?_⟩
            simp only [List.any_map, List.any_eq_true, Function.comp, Bool.or_eq_true,
              decide_eq_true_eq, Rune.char.injEq, not_exists, not_and, not_or] at hquote hcontrol
            have hlow := hascii (.char c) (List.mem_map_of_mem hc)
            simp only [isAscii, decide_eq_true_eq] at hlow
            have hprint : ¬c.toNat < 0x20 ∧ ¬c.toNat = 0x7f := hcontrol c hc
            exact ⟨⟨(hquote c hc).1, (hquote c hc).2, by omega⟩, by omega⟩
          refine ⟨?_, ?_⟩
          · intro h
            cases h
            exact ⟨⟨cs, rfl, hid⟩, rfl⟩
          · rintro ⟨-, rfl⟩
            rfl

/-- Both sides accept the same identifiers. -/
theorem identifier_iff (runes : List Rune) (field : String) :
    (∃ text, identifier (.str runes) field = .ok text) ↔
      ∃ cs, runes = cs.map .char ∧
        ∃ text, Continuity.identifier (String.ofList (quote cs)) field = .ok text := by
  simp only [identifier_str_eq_ok, identifier_quote_eq_ok, exists_and_left, exists_eq, and_true]

/-! ## What is built and encoded -/

theorem token_word {s : String} (hs : s ≠ "") (field : String) :
    token (.str (s.toList.map .char)) field = .ok (s.toList.map .char) := by
  rw [token, if_neg]
  simpa using hs

theorem venue_asStr_ne_empty (v : Venue) : v.asStr ≠ "" := by cases v <;> decide

theorem stream_asStr_ne_empty (s : Stream) : s.asStr ≠ "" := by cases s <;> decide

theorem kind_asStr_ne_empty (k : RecordKind) : k.asStr ≠ "" := by cases k <;> decide

theorem cursorMember_map (c : Option SourceCursor) :
    cursorMember (c.map (cursorMembers .char)) =
      c.elim (.scalar .null) fun c => .object (cursorMembers .char c) := by
  cases c <;> rfl

theorem buildEnvelope_eq_ok {g : Given} {record : Record}
    (h : buildEnvelope g.arguments = .ok record) :
    (∃ cs, g.recordId = cs.map .char ∧ IsIdentifier cs) ∧
      (∃ cs, g.connectionEpoch = cs.map .char ∧ IsIdentifier cs) ∧ g.Versioned ∧
      record = g.members .char g.recordId g.connectionEpoch g.rawPayload := by
  unfold buildEnvelope at h
  obtain ⟨head, hhead, h⟩ := Except.bind_eq_ok.mp h
  obtain ⟨tail, htail, h⟩ := Except.bind_eq_ok.mp h
  obtain ⟨⟨built, expected⟩, hversioned, hdrift⟩ := Except.bind_eq_ok.mp h
  have hrecord : (∃ cs, g.recordId = cs.map .char ∧ IsIdentifier cs) ∧
      head = g.front g.recordId := by
    unfold common at hhead
    simp only [Given.arguments, uint_natCast, Except.ok_bind] at hhead
    obtain ⟨text, htext, hhead⟩ := Except.bind_eq_ok.mp hhead
    obtain ⟨hid, rfl⟩ := identifier_str_eq_ok.mp htext
    cases hhead
    exact ⟨hid, rfl⟩
  have hepoch : (∃ cs, g.connectionEpoch = cs.map .char ∧ IsIdentifier cs) ∧
      tail = g.back .char g.connectionEpoch g.rawPayload := by
    unfold Envelope.tail at htail
    simp only [Given.arguments, uint_natCast, token_word (venue_asStr_ne_empty _),
      token_word (stream_asStr_ne_empty _), token_word (kind_asStr_ne_empty _),
      Except.ok_bind] at htail
    obtain ⟨text, htext, htail⟩ := Except.bind_eq_ok.mp htail
    obtain ⟨hid, rfl⟩ := identifier_str_eq_ok.mp htext
    rw [cursorMember_map] at htail
    cases htail
    exact ⟨hid, rfl⟩
  obtain ⟨hid, rfl⟩ := hrecord
  obtain ⟨hid', rfl⟩ := hepoch
  have hbuilt : g.Versioned ∧ built = g.members .char g.recordId g.connectionEpoch g.rawPayload := by
    unfold versioned at hversioned
    simp only [Given.arguments] at hversioned
    cases hclock : g.monotonicNs with
    | none =>
      simp only [hclock, Option.elim_none, ne_eq, not_true_eq_false, if_true, if_false]
        at hversioned
      split at hversioned
      · rename_i hone
        cases hversioned
        refine ⟨Or.inl ⟨hone, hclock⟩, ?_⟩
        rw [Given.members, hclock]
      · split at hversioned <;> cases hversioned
    | some n =>
      simp only [hclock, Option.elim_some, uint_natCast] at hversioned
      split at hversioned
      · cases hversioned
      · split at hversioned
        · rename_i htwo
          cases hversioned
          refine ⟨Or.inr ⟨htwo, by simp [hclock]⟩, ?_⟩
          rw [Given.members, hclock]
          rfl
        · cases hversioned
  dsimp only at hdrift
  split at hdrift
  · cases hdrift
  · cases hdrift
    exact ⟨hid, hid', hbuilt⟩

/-- Plain identifiers and a version with its clock reading are all a record needs. -/
theorem buildEnvelope_of_identifiers {g : Given} {recordId connectionEpoch : List Char}
    (hrecord : g.recordId = recordId.map .char) (hid : IsIdentifier recordId)
    (hepoch : g.connectionEpoch = connectionEpoch.map .char) (hid' : IsIdentifier connectionEpoch)
    (hversion : g.Versioned) :
    buildEnvelope g.arguments =
      .ok (g.members .char g.recordId g.connectionEpoch g.rawPayload) := by
  have hrecordText : identifier (.str g.recordId) "record_id" = .ok g.recordId :=
    identifier_str_eq_ok.mpr ⟨⟨recordId, hrecord, hid⟩, rfl⟩
  have hepochText : identifier (.str g.connectionEpoch) "connection_epoch" =
      .ok g.connectionEpoch :=
    identifier_str_eq_ok.mpr ⟨⟨connectionEpoch, hepoch, hid'⟩, rfl⟩
  have hcommon : common g.arguments = .ok (g.front g.recordId) := by
    simp only [common, Given.arguments, uint_natCast, Except.ok_bind, hrecordText]
    rfl
  have htail : tail g.arguments = .ok (g.back .char g.connectionEpoch g.rawPayload) := by
    simp only [tail, Given.arguments, uint_natCast, token_word (venue_asStr_ne_empty _),
      token_word (stream_asStr_ne_empty _), token_word (kind_asStr_ne_empty _), hepochText,
      Except.ok_bind, cursorMember_map]
    rfl
  unfold buildEnvelope
  rw [hcommon, Except.ok_bind, htail, Except.ok_bind]
  rcases hversion with ⟨hone, hclock⟩ | ⟨htwo, hclock⟩
  · simp only [versioned, Given.arguments, hone, hclock, Given.members]
    rfl
  · obtain ⟨n, hn⟩ := Option.ne_none_iff_exists'.mp hclock
    simp only [versioned, Given.arguments, htwo, hn, Given.members]
    rfl

/-! ### The text -/

theorem chars?_cursorMembers (c : SourceCursor) :
    (cursorMembers Rune.char c).mapM
        (fun m : String × Scalar Rune => m.2.chars?.map fun s => (m.1, s)) =
      some (cursorMembers id c) := by
  cases c <;> simp [cursorMembers, cursorNumbers, Scalar.chars?]

theorem chars?_sourceCursor (c : Option SourceCursor) :
    Compact.chars? (c.elim (.scalar .null) fun c => .object (cursorMembers Rune.char c)) =
      some (c.elim (.scalar .null) fun c => .object (cursorMembers id c)) := by
  cases c with
  | none => rfl
  | some c =>
    rw [Option.elim_some, Option.elim_some, Compact.chars?, chars?_cursorMembers]
    rfl

theorem recordChars?_members (g : Given) (recordId connectionEpoch rawPayload : List Char) :
    recordChars? (g.members .char (recordId.map .char) (connectionEpoch.map .char)
        (rawPayload.map .char)) =
      some (g.members id recordId connectionEpoch rawPayload) := by
  have hcursor := chars?_sourceCursor g.sourceCursor
  cases hclock : g.monotonicNs <;>
    simp [recordChars?, Given.members, Given.front, Given.back, hclock, hcursor]

/-- A record has a text if its payload has one. -/
theorem recordChars?_eq_some {g : Given} {recordId connectionEpoch : List Char}
    {members : List (String × Compact Char)}
    (h : recordChars? (g.members .char (recordId.map .char) (connectionEpoch.map .char)
      g.rawPayload) = some members) :
    ∃ payload, g.rawPayload = payload.map .char ∧
      members = g.members id recordId connectionEpoch payload := by
  cases hpayload : g.rawPayload.mapM Rune.char? with
  | none =>
    cases hclock : g.monotonicNs <;>
      simp [recordChars?, Given.members, Given.front, Given.back, hclock, hpayload] at h
  | some payload =>
    have htext := mapM_char?_eq_some.mp hpayload
    rw [htext, recordChars?_members] at h
    cases h
    exact ⟨payload, htext, rfl⟩

theorem encodeEnvelope_eq_ok {digits : Nat} {record : Record} {line : List UInt8}
    (h : encodeEnvelope digits record = .ok line) :
    ∃ members, recordChars? record = some members ∧
      line = (String.ofList (dumps members)).utf8Bytes ++ [10] := by
  unfold encodeEnvelope at h
  split at h
  · cases h
  · split at h
    · cases h
    · rename_i members hmembers
      dsimp only at h
      split at h
      · cases h
      · cases h
        exact ⟨members, hmembers, rfl⟩

/-- A record with a text is encoded, if none of its integers is too long. -/
theorem encodeEnvelope_of_text {digits : Nat} {record : Record}
    {members : List (String × Compact Char)} (hwidth : record.all (·.2.width ≤ digits) = true)
    (hmembers : recordChars? record = some members)
    (hnewline : '\n' ∉ dumps members) :
    encodeEnvelope digits record = .ok ((String.ofList (dumps members)).utf8Bytes ++ [10]) := by
  have hany : ¬(record.any fun m => digits < m.2.width) = true := by
    simp only [List.any_eq_true, decide_eq_true_eq, not_exists, not_and, Nat.not_lt]
    simpa only [List.all_eq_true, decide_eq_true_eq] using hwidth
  rw [encodeEnvelope, if_neg hany, hmembers]
  dsimp only
  rw [List.contains_eq_mem, if_neg (by simpa using hnewline)]

theorem newline_notMem_dumps (members : List (String × Compact Char)) : '\n' ∉ dumps members := by
  apply newline_notMem_objectText
  intro m hm
  obtain ⟨x, -, rfl⟩ := List.mem_map.mp hm
  exact x.2.newline_notMem_text

/-- The line break at the end of a line is its only one. -/
theorem newline_notMem_utf8Bytes (members : List (String × Compact Char)) :
    10 ∉ (String.ofList (dumps members)).utf8Bytes := by
  intro h
  obtain ⟨c, hc, hcode⟩ := String.mem_of_ofNat_mem_utf8Bytes (n := 10) (by decide) h
  rw [String.toList_ofList] at hc
  have hnewline : c = '\n' := Char.toNat_inj.mp hcode
  exact newline_notMem_dumps members (hnewline ▸ hc)

/-! ## What is read -/

theorem foldl_digits (ds : List Char) (init : Nat) :
    ds.foldl (fun value c => value * 10 + (c.toNat - '0'.toNat)) init =
      Nat.ofDigitChars 10 ds init := by
  rw [Nat.ofDigitChars_eq_foldl]
  congr 1
  funext value c
  rw [Nat.mul_comm]

theorem uint_toDigits {n : Nat} (hn : n < 2 ^ 64) (field : String) :
    Continuity.uint (String.ofList (Nat.toDigits 10 n)) field = .ok ⟨n, hn⟩ := by
  have hdigits : (Nat.toDigits 10 n).all Char.isDigit = true :=
    List.all_eq_true.mpr fun c hc => Nat.isDigit_of_mem_toDigits (by decide) (by decide) hc
  have hne : (Nat.toDigits 10 n).isEmpty = false := by
    rw [List.isEmpty_eq_false_iff]
    exact Nat.toDigits_ne_nil
  have hvalue : Nat.ofDigitChars 10 (Nat.toDigits 10 n) 0 = n :=
    Nat.ofDigitChars_toDigits (by decide) (by decide)
  simp only [Continuity.uint, Continuity.parseUint, String.toList_ofList, hdigits, hne,
    Bool.not_true, Bool.or_false, Bool.false_eq_true, if_false, foldl_digits, hvalue, dif_pos hn]

theorem word_quote {α : Type} {fromWire : String → Option α}
    {unknown : String → Continuity.EnvelopeError} {s : String} {a : α}
    (hs : ∀ c ∈ s.toList, Verbatim c) (ha : fromWire s = some a) (field : String) :
    Continuity.word fromWire unknown (String.ofList (quote s.toList)) field = .ok a := by
  rw [Continuity.word, plainString_quote_of_verbatim hs, Except.ok_bind, String.ofList_toList, ha]

theorem verbatim_venue (v : Venue) : ∀ c ∈ v.asStr.toList, Verbatim c := by
  cases v <;> simp [Venue.asStr, Verbatim]

theorem verbatim_stream (s : Stream) : ∀ c ∈ s.asStr.toList, Verbatim c := by
  cases s <;> simp [Stream.asStr, Verbatim]

theorem verbatim_kind (k : RecordKind) : ∀ c ∈ k.asStr.toList, Verbatim c := by
  cases k <;> simp [RecordKind.asStr, Verbatim]

theorem u64_of_lt {n : Nat} (h : n < 2 ^ 64) : u64 n = some ⟨n, h⟩ := dif_pos h

theorem parseCursor_text {json : SerdeJson} (hjson : ReadsCompact json) {c : SourceCursor}
    (hc : c.InRange) :
    Continuity.parseCursor json (String.ofList (Compact.object (cursorMembers id c)).text) =
      .ok c := by
  rw [Continuity.parseCursor, hjson.cursor]
  cases c with
  | unsequenced counter =>
    rw [cursorWire, u64_of_lt hc]
    rfl
  | snapshotId lastUpdateId =>
    rw [cursorWire, u64_of_lt hc]
    rfl
  | snapshotTime sourceTimeMs =>
    rw [cursorWire, u64_of_lt hc]
    rfl
  | updateRange first last previousLast =>
    obtain ⟨hfirst, hlast, hprevious⟩ := hc
    rw [cursorWire, u64_of_lt hfirst, u64_of_lt hlast, u64_of_lt hprevious]
    rfl

/-- A number beyond `u64` is no cursor. -/
theorem cursorWire_eq_none {c : SourceCursor} (hc : ¬c.InRange) : cursorWire c = none := by
  have hu64 : ∀ n : Nat, ¬n < 2 ^ 64 → u64 n = none := fun n hn => dif_neg hn
  cases c with
  | unsequenced counter => rw [cursorWire, hu64 _ hc]; rfl
  | snapshotId lastUpdateId => rw [cursorWire, hu64 _ hc]; rfl
  | snapshotTime sourceTimeMs => rw [cursorWire, hu64 _ hc]; rfl
  | updateRange first last previousLast =>
    by_cases hfirst : first < 2 ^ 64
    · by_cases hlast : last < 2 ^ 64
      · have hprevious : ¬previousLast < 2 ^ 64 := fun h => hc ⟨hfirst, hlast, h⟩
        rw [cursorWire, u64_of_lt hfirst, u64_of_lt hlast, hu64 _ hprevious]
        rfl
      · rw [cursorWire, u64_of_lt hfirst, hu64 _ hlast]
        rfl
    · rw [cursorWire, hu64 _ hfirst]
      rfl

/-- The members of a line as the reader is given them. -/
def lexemesOf (members : List (String × Compact Char)) : List (String × String) :=
  members.map fun m => (m.1, String.ofList m.2.text)

/-- The slots that the members of a record fill. -/
def Given.slots (g : Given) (hg : g.InRange) (recordId connectionEpoch rawPayload : List Char) :
    Slots where
  envelopeVersion := g.monotonicNs.map fun _ => 2
  deliveryIndex := some ⟨g.deliveryIndex, hg.deliveryIndex⟩
  recordId := some (String.ofList recordId)
  visibleNs := some ⟨g.visibleNs, hg.visibleNs⟩
  monotonicNs := g.monotonicNs.pmap (fun n hn => ⟨n, hn⟩) hg.monotonicNs
  venue := some g.venue
  stream := some g.stream
  connectionEpoch := some (String.ofList connectionEpoch)
  localCounter := some ⟨g.localCounter, hg.localCounter⟩
  sourceCursor := some g.sourceCursor
  kind := some g.kind
  rawPayload := some (String.ofList rawPayload)

theorem identifier_quote {cs : List Char} (h : IsIdentifier cs) (field : String) :
    Continuity.identifier (String.ofList (quote cs)) field = .ok (String.ofList cs) :=
  identifier_quote_eq_ok.mpr ⟨h, rfl⟩

/-- A cursor's text is not `null`. -/
theorem text_object_ne_null (members : List (String × Scalar Char)) :
    String.ofList (Compact.object members).text ≠ "null" := by
  intro h
  have hhead := congrArg (fun s => s.toList.head?) h
  rw [String.toList_ofList] at hhead
  replace hhead : some '\x7b' = some 'n' := hhead
  exact absurd hhead (by decide)

theorem set_sourceCursor {json : SerdeJson} (hjson : ReadsCompact json) {c : Option SourceCursor}
    (hc : ∀ x ∈ c, x.InRange) {s : Slots} (hs : s.sourceCursor = none) :
    s.set json "source_cursor" (String.ofList (Compact.text
        (c.elim (.scalar .null) fun c => .object (cursorMembers id c)))) =
      .ok { s with sourceCursor := some c } := by
  cases c with
  | none =>
    have hnull : String.ofList (Compact.scalar Scalar.null).text = "null" := rfl
    rw [Option.elim_none, hnull]
    simp only [Slots.set, if_true, Continuity.setOnce, hs]
    rfl
  | some c =>
    simp only [Slots.set, Option.elim_some, if_neg (text_object_ne_null _),
      parseCursor_text hjson (hc c rfl), Continuity.setOnce, hs]
    rfl

/-- One member, and the last rejection so far. -/
def fillStep (json : SerdeJson) (p : Slots × Option Continuity.EnvelopeError)
    (m : String × String) : Slots × Option Continuity.EnvelopeError :=
  match p.1.set json m.1 m.2 with
  | .ok s => (s, p.2)
  | .error e => (p.1, some e)

def fillResult (p : Slots × Option Continuity.EnvelopeError) :
    Except Continuity.EnvelopeError Slots :=
  match p.2 with
  | some e => .error e
  | none => .ok p.1

theorem fill_eq_foldl (json : SerdeJson) (entries : List (String × String)) :
    Slots.fill json entries = fillResult (entries.foldl (fillStep json) ({}, none)) := rfl

/-- A rejection is not taken back. -/
theorem foldl_fillStep_some {json : SerdeJson} {entries : List (String × String)} {s : Slots}
    {e : Continuity.EnvelopeError} : (entries.foldl (fillStep json) (s, some e)).2 ≠ none := by
  induction entries generalizing s e with
  | nil => simp
  | cons m entries ih =>
    rw [List.foldl_cons, fillStep]
    split <;> exact ih

/-- Every member is set, or the line is rejected. -/
theorem fill_eq_ok {json : SerdeJson} {entries : List (String × String)} {s : Slots} :
    Slots.fill json entries = .ok s ↔
      entries.foldlM (fun s m => s.set json m.1 m.2) ({} : Slots) = .ok s := by
  have hfold : ∀ s₀ : Slots, entries.foldl (fillStep json) (s₀, none) = (s, none) ↔
      entries.foldlM (fun s m => s.set json m.1 m.2) s₀ = .ok s := by
    induction entries with
    | nil => simp
    | cons m entries ih =>
      intro s₀
      rw [List.foldl_cons, List.foldlM_cons, fillStep]
      cases hset : s₀.set json m.1 m.2 with
      | ok s₁ => exact ih s₁
      | error e =>
        refine ⟨fun h => ?_, fun h => (by cases h)⟩
        exact absurd (congrArg Prod.snd h) foldl_fillStep_some
  rw [← hfold, fill_eq_foldl]
  cases hresult : entries.foldl (fillStep json) ({}, none) with
  | mk s' rejected => cases rejected <;> simp [fillResult]

theorem fill_members {json : SerdeJson} (hjson : ReadsCompact json) {g : Given} (hg : g.InRange)
    {recordId connectionEpoch rawPayload : List Char} (hid : IsIdentifier recordId)
    (hid' : IsIdentifier connectionEpoch) (hcursor : ∀ c ∈ g.sourceCursor, c.InRange) :
    Slots.fill json (lexemesOf (g.members id recordId connectionEpoch rawPayload)) =
      .ok (g.slots hg recordId connectionEpoch rawPayload) := by
  have hdelivery := uint_toDigits hg.deliveryIndex "delivery_index"
  have hvisible := uint_toDigits hg.visibleNs "visible_ns"
  have hlocal := uint_toDigits hg.localCounter "local_counter"
  have hversion := uint_toDigits (n := 2) (by decide) "envelope_version"
  have hrecord := identifier_quote hid "record_id"
  have hepoch := identifier_quote hid' "connection_epoch"
  have hvenue := @word_quote _ _ .unknownVenue _ g.venue (verbatim_venue g.venue)
    (Venue.fromWire_asStr _) "venue"
  have hstream := @word_quote _ _ .unknownStream _ g.stream (verbatim_stream g.stream)
    (Stream.fromWire_asStr _) "stream"
  have hkind := @word_quote _ _ .unknownRecordKind _ g.kind (verbatim_kind g.kind)
    (RecordKind.fromWire_asStr _) "kind"
  have hpayload := hjson.string rawPayload
  rw [fill_eq_ok]
  cases hclock : g.monotonicNs with
  | none =>
    simp only [lexemesOf, Given.members, hclock, Given.front, Given.back, List.map_cons,
      List.cons_append, List.nil_append, List.map_nil, Compact.text_number, Compact.text_string,
      List.map_id]
    refine List.foldlM_cons_eq_ok.mpr ⟨_, by simp only [Slots.set, hdelivery]; rfl, ?_⟩
    refine List.foldlM_cons_eq_ok.mpr ⟨_, by simp only [Slots.set, hrecord]; rfl, ?_⟩
    refine List.foldlM_cons_eq_ok.mpr ⟨_, by simp only [Slots.set, hvisible]; rfl, ?_⟩
    refine List.foldlM_cons_eq_ok.mpr ⟨_, by simp only [Slots.set, hvenue]; rfl, ?_⟩
    refine List.foldlM_cons_eq_ok.mpr ⟨_, by simp only [Slots.set, hstream]; rfl, ?_⟩
    refine List.foldlM_cons_eq_ok.mpr ⟨_, by simp only [Slots.set, hepoch]; rfl, ?_⟩
    refine List.foldlM_cons_eq_ok.mpr ⟨_, by simp only [Slots.set, hlocal]; rfl, ?_⟩
    refine List.foldlM_cons_eq_ok.mpr ⟨_, set_sourceCursor hjson hcursor rfl, ?_⟩
    refine List.foldlM_cons_eq_ok.mpr ⟨_, by simp only [Slots.set, hkind]; rfl, ?_⟩
    refine List.foldlM_cons_eq_ok.mpr ⟨_, by simp only [Slots.set, hpayload]; rfl, ?_⟩
    simp only [Given.slots, hclock]
    rfl
  | some n =>
    have hmonotonic := uint_toDigits (hg.monotonicNs n hclock) "monotonic_ns"
    simp only [lexemesOf, Given.members, hclock, Given.front, Given.back, List.map_cons,
      List.cons_append, List.nil_append, List.map_nil, Compact.text_number, Compact.text_string,
      List.map_id]
    refine List.foldlM_cons_eq_ok.mpr ⟨_, by simp only [Slots.set, hversion]; rfl, ?_⟩
    refine List.foldlM_cons_eq_ok.mpr ⟨_, by simp only [Slots.set, hdelivery]; rfl, ?_⟩
    refine List.foldlM_cons_eq_ok.mpr ⟨_, by simp only [Slots.set, hrecord]; rfl, ?_⟩
    refine List.foldlM_cons_eq_ok.mpr ⟨_, by simp only [Slots.set, hvisible]; rfl, ?_⟩
    refine List.foldlM_cons_eq_ok.mpr ⟨_, by simp only [Slots.set, hmonotonic]; rfl, ?_⟩
    refine List.foldlM_cons_eq_ok.mpr ⟨_, by simp only [Slots.set, hvenue]; rfl, ?_⟩
    refine List.foldlM_cons_eq_ok.mpr ⟨_, by simp only [Slots.set, hstream]; rfl, ?_⟩
    refine List.foldlM_cons_eq_ok.mpr ⟨_, by simp only [Slots.set, hepoch]; rfl, ?_⟩
    refine List.foldlM_cons_eq_ok.mpr ⟨_, by simp only [Slots.set, hlocal]; rfl, ?_⟩
    refine List.foldlM_cons_eq_ok.mpr ⟨_, set_sourceCursor hjson hcursor rfl, ?_⟩
    refine List.foldlM_cons_eq_ok.mpr ⟨_, by simp only [Slots.set, hkind]; rfl, ?_⟩
    refine List.foldlM_cons_eq_ok.mpr ⟨_, by simp only [Slots.set, hpayload]; rfl, ?_⟩
    simp only [Given.slots, hclock]
    rfl

/-- The names of a record need no escape, and no member of it is an empty object. -/
theorem verbatim_members {g : Given} {recordId connectionEpoch rawPayload : List Char} :
    ∀ m ∈ g.members id recordId connectionEpoch rawPayload,
      (∀ c ∈ m.1.toList, Verbatim c) ∧ m.2 ≠ .object [] := by
  have hcursor : (g.sourceCursor.elim (.scalar .null) fun c =>
      .object (cursorMembers id c) : Compact Char) ≠ .object [] := by
    cases g.sourceCursor <;> simp [cursorMembers]
  cases hclock : g.monotonicNs <;>
    simp [Given.members, hclock, Given.front, Given.back, Verbatim, hcursor]

theorem stripNewline_append (bytes : List UInt8) :
    Continuity.stripNewline (bytes ++ [10]) = bytes := by
  simp [Continuity.stripNewline]

/-- A line is read as its members are. -/
theorem parse_line {json : SerdeJson} (hjson : ReadsCompact json)
    {members : List (String × Compact Char)} (hne : members ≠ [])
    (hverbatim : ∀ m ∈ members, (∀ c ∈ m.1.toList, Verbatim c) ∧ m.2 ≠ .object []) :
    EnvelopeView.parse json ((String.ofList (dumps members)).utf8Bytes ++ [10]) =
      Slots.fill json (lexemesOf members) >>= Slots.finish := by
  have hobject := hjson.object members hne hverbatim
  unfold EnvelopeView.parse
  rw [stripNewline_append, String.fromUTF8?_utf8Bytes]
  dsimp only
  rw [hobject]
  show (Slots.fill json (lexemesOf members) >>= Slots.finish) >>= _ = _
  cases Slots.fill json (lexemesOf members) >>= Slots.finish <;> rfl

/-- The slots of a record are a view of it. -/
theorem finish_slots {g : Given} (hg : g.InRange) (hversion : g.Versioned)
    {recordId connectionEpoch rawPayload : List Char} (hrecord : g.recordId = recordId.map .char)
    (hepoch : g.connectionEpoch = connectionEpoch.map .char)
    (hpayload : g.rawPayload = rawPayload.map .char) :
    ∃ view, (g.slots hg recordId connectionEpoch rawPayload).finish = .ok view ∧
      g.SaidBy view := by
  cases hclock : g.monotonicNs with
  | none =>
    have hone : g.envelopeVersion = 1 := by simpa [Given.Versioned, hclock] using hversion
    refine ⟨_, by simp only [Slots.finish, Given.slots, hclock]; rfl, ?_⟩
    exact ⟨by simp [hone], rfl, by simp [hrecord], rfl, hclock.symm, rfl, rfl, by simp [hepoch],
      rfl, rfl, rfl, by simp [hpayload]⟩
  | some n =>
    have htwo : g.envelopeVersion = 2 := by simpa [Given.Versioned, hclock] using hversion
    refine ⟨_, by simp only [Slots.finish, Given.slots, hclock]; rfl, ?_⟩
    exact ⟨by simp [htwo], rfl, by simp [hrecord], rfl, hclock.symm, rfl, rfl, by simp [hepoch],
      rfl, rfl, rfl, by simp [hpayload]⟩

/-- A loop that ends has done every round. -/
theorem exists_of_foldlM_eq_ok {ε σ α : Type} {f : σ → α → Except ε σ} {l : List α} {s r : σ}
    (h : l.foldlM f s = .ok r) {a : α} (ha : a ∈ l) : ∃ s₀ s₁, f s₀ a = .ok s₁ := by
  induction l generalizing s with
  | nil => cases ha
  | cons b l ih =>
    obtain ⟨s₁, hs₁, hr⟩ := List.foldlM_cons_eq_ok.mp h
    rcases List.mem_cons.mp ha with rfl | hmem
    · exact ⟨s, s₁, hs₁⟩
    · exact ih hr hmem

/-- A line that is read has a cursor of `u64`s. -/
theorem inRange_of_fill {json : SerdeJson} (hjson : ReadsCompact json) {g : Given}
    {recordId connectionEpoch rawPayload : List Char} {s : Slots}
    (h : Slots.fill json (lexemesOf (g.members id recordId connectionEpoch rawPayload)) = .ok s) :
    ∀ c ∈ g.sourceCursor, c.InRange := by
  intro c hc
  by_contra hrange
  have hmem : ("source_cursor", String.ofList (Compact.object (cursorMembers id c)).text) ∈
      lexemesOf (g.members id recordId connectionEpoch rawPayload) := by
    cases hclock : g.monotonicNs <;>
      simp [lexemesOf, Given.members, hclock, Given.front, Given.back, Option.mem_def.mp hc]
  obtain ⟨s₀, s₁, hset⟩ := exists_of_foldlM_eq_ok (fill_eq_ok.mp h) hmem
  have hparse : Continuity.parseCursor json
      (String.ofList (Compact.object (cursorMembers id c)).text) =
        .error .invalidSourceCursor := by
    rw [Continuity.parseCursor, hjson.cursor, cursorWire_eq_none hrange]
  simp only [Slots.set, if_neg (text_object_ne_null _), hparse] at hset
  cases hset

/-- A record that is built and encoded is a line of its members. -/
theorem line_of_encode {g : Given} {digits : Nat} {record : Record} {line : List UInt8}
    (hbuild : buildEnvelope g.arguments = .ok record)
    (hencode : encodeEnvelope digits record = .ok line) :
    ∃ recordId connectionEpoch rawPayload : List Char,
      (g.recordId = recordId.map .char ∧ IsIdentifier recordId) ∧
      (g.connectionEpoch = connectionEpoch.map .char ∧ IsIdentifier connectionEpoch) ∧
      g.rawPayload = rawPayload.map .char ∧ g.Versioned ∧
      line = (String.ofList (dumps
        (g.members id recordId connectionEpoch rawPayload))).utf8Bytes ++ [10] := by
  obtain ⟨⟨recordId, hrecord, hid⟩, ⟨connectionEpoch, hepoch, hid'⟩, hversion, rfl⟩ :=
    buildEnvelope_eq_ok hbuild
  obtain ⟨members, hmembers, rfl⟩ := encodeEnvelope_eq_ok hencode
  rw [hrecord, hepoch] at hmembers
  obtain ⟨rawPayload, hpayload, rfl⟩ := recordChars?_eq_some hmembers
  exact ⟨recordId, connectionEpoch, rawPayload, ⟨hrecord, hid⟩, ⟨hepoch, hid'⟩, hpayload, hversion,
    rfl⟩

theorem members_ne_nil {σ : Type} {ι : Char → σ} {g : Given}
    {recordId connectionEpoch rawPayload : List σ} :
    g.members ι recordId connectionEpoch rawPayload ≠ [] := by
  cases hclock : g.monotonicNs <;> simp [Given.members, hclock, Given.front]

/-- A number that is no `u64` is no integer of the reader. -/
theorem uint_toDigits_error {n : Nat} (hn : ¬n < 2 ^ 64) (field : String) :
    Continuity.uint (String.ofList (Nat.toDigits 10 n)) field = .error (.invalidInteger field) := by
  have hvalue : Nat.ofDigitChars 10 (Nat.toDigits 10 n) 0 = n :=
    Nat.ofDigitChars_toDigits (by decide) (by decide)
  have hparse : Continuity.parseUint (String.ofList (Nat.toDigits 10 n)) = none := by
    simp only [Continuity.parseUint, String.toList_ofList, foldl_digits, hvalue, dif_neg hn,
      ite_self]
  rw [Continuity.uint, hparse]

/-- A line that is read has indices, counters and clock readings of `u64`. -/
theorem given_inRange_of_fill {json : SerdeJson} {g : Given}
    {recordId connectionEpoch rawPayload : List Char} {s : Slots}
    (h : Slots.fill json (lexemesOf (g.members id recordId connectionEpoch rawPayload)) = .ok s) :
    g.InRange := by
  have hset : ∀ name n, (name, Compact.scalar (.number n)) ∈
      g.members id recordId connectionEpoch rawPayload →
      ∃ s₀ s₁ : Slots, s₀.set json name (String.ofList (Nat.toDigits 10 n)) = .ok s₁ := by
    intro name n hmem
    exact exists_of_foldlM_eq_ok (fill_eq_ok.mp h) (List.mem_map_of_mem hmem)
  have hmem : ∀ m ∈ [("delivery_index", Compact.scalar (.number g.deliveryIndex)),
      ("visible_ns", .scalar (.number g.visibleNs)),
      ("local_counter", .scalar (.number g.localCounter))],
      m ∈ g.members id recordId connectionEpoch rawPayload := by
    cases hclock : g.monotonicNs <;>
      simp [Given.members, hclock, Given.front, Given.back]
  constructor
  · by_contra hn
    obtain ⟨s₀, s₁, hset⟩ := hset "delivery_index" g.deliveryIndex (hmem _ (by simp))
    simp only [Slots.set, uint_toDigits_error hn] at hset
    cases hset
  · by_contra hn
    obtain ⟨s₀, s₁, hset⟩ := hset "visible_ns" g.visibleNs (hmem _ (by simp))
    simp only [Slots.set, uint_toDigits_error hn] at hset
    cases hset
  · intro n hclock
    by_contra hn
    have hmem : ("monotonic_ns", Compact.scalar (.number n)) ∈
        g.members id recordId connectionEpoch rawPayload := by
      simp [Given.members, Option.mem_def.mp hclock]
    obtain ⟨s₀, s₁, hset⟩ := hset "monotonic_ns" n hmem
    simp only [Slots.set, uint_toDigits_error hn] at hset
    cases hset
  · by_contra hn
    obtain ⟨s₀, s₁, hset⟩ := hset "local_counter" g.localCounter (hmem _ (by simp))
    simp only [Slots.set, uint_toDigits_error hn] at hset
    cases hset

/-- A line with integers of a `u64` is read as it was given. -/
theorem parse_of_inRange {json : SerdeJson} (hjson : ReadsCompact json) {digits : Nat} {g : Given}
    {record : Record} {line : List UInt8} (hbuild : buildEnvelope g.arguments = .ok record)
    (hencode : encodeEnvelope digits record = .ok line) (hg : g.InRange)
    (hcursor : ∀ c ∈ g.sourceCursor, c.InRange) :
    ∃ view, EnvelopeView.parse json line = .ok view ∧ g.SaidBy view := by
  obtain ⟨recordId, connectionEpoch, rawPayload, ⟨hrecord, hid⟩, ⟨hepoch, hid'⟩, hpayload, hversion,
    rfl⟩ := line_of_encode hbuild hencode
  obtain ⟨view, hfinish, hsaid⟩ := finish_slots hg hversion hrecord hepoch hpayload
  refine ⟨view, ?_, hsaid⟩
  rw [parse_line hjson members_ne_nil verbatim_members, fill_members hjson hg hid hid' hcursor,
    Except.ok_bind, hfinish]

/-- Whatever is read of a line is what was given. -/
theorem saidBy_of_parse {json : SerdeJson} (hjson : ReadsCompact json) {digits : Nat} {g : Given}
    {record : Record} {line : List UInt8} (hbuild : buildEnvelope g.arguments = .ok record)
    (hencode : encodeEnvelope digits record = .ok line) {view : EnvelopeView}
    (h : EnvelopeView.parse json line = .ok view) : g.InRange ∧ g.SaidBy view := by
  have hrange : g.InRange ∧ ∀ c ∈ g.sourceCursor, c.InRange := by
    obtain ⟨recordId, connectionEpoch, rawPayload, -, -, -, -, rfl⟩ :=
      line_of_encode hbuild hencode
    rw [parse_line hjson members_ne_nil verbatim_members] at h
    obtain ⟨s, hs, -⟩ := Except.bind_eq_ok.mp h
    exact ⟨given_inRange_of_fill hs, inRange_of_fill hjson hs⟩
  obtain ⟨view', hview', hsaid⟩ := parse_of_inRange hjson hbuild hencode hrange.1 hrange.2
  rw [h] at hview'
  cases hview'
  exact ⟨hrange.1, hsaid⟩

/-- Whatever line is read has a cursor of `u64`s. -/
theorem inRange_of_parse {json : SerdeJson} (hjson : ReadsCompact json) {digits : Nat} {g : Given}
    {record : Record} {line : List UInt8} (hbuild : buildEnvelope g.arguments = .ok record)
    (hencode : encodeEnvelope digits record = .ok line) {view : EnvelopeView}
    (h : EnvelopeView.parse json line = .ok view) : ∀ c ∈ g.sourceCursor, c.InRange := by
  obtain ⟨recordId, connectionEpoch, rawPayload, -, -, -, -, rfl⟩ := line_of_encode hbuild hencode
  rw [parse_line hjson members_ne_nil verbatim_members] at h
  obtain ⟨s, hs, -⟩ := Except.bind_eq_ok.mp h
  exact inRange_of_fill hjson hs

/-! ## A reader of compact text -/

/-- An optional `u64` of a struct, left out or `null`. -/
def optionalU64 (members : List (String × JsonText)) (name : String) : Option (Option U64) :=
  Serde.optionalField members name fun v => (Serde.u64 v).bind u64

/-- A cursor's struct, read off the members of an object. -/
def wireOf (members : List (String × JsonText)) : Option CursorWire := do
  return ⟨← Serde.field members "type" Serde.string, ← optionalU64 members "counter",
    ← optionalU64 members "last_update_id", ← optionalU64 members "source_time_ms",
    ← optionalU64 members "first", ← optionalU64 members "last",
    ← optionalU64 members "previous_last"⟩

/-- A key and a lexeme as text. -/
def entry (m : List Rune × List Char) : Option (String × String) :=
  (Rune.text? m.1).map fun name => (name, String.ofList m.2)

/-- An object's members behind its opening brace. -/
def entriesOf (cs : List Char) : Except String (List (String × String) × Except String Unit) :=
  match lexemes (cs.length + 1) cs with
  | none => .error "expected the members of an object"
  | some (members, rest) =>
    match members.mapM entry with
    | none => .error "invalid key"
    | some entries =>
      .ok (entries, if skip rest = [] then .ok () else .error "trailing characters")

/-- `serde_json` on the grammar of `JsonText`. -/
def textJson : SerdeJson where
  object text :=
    match text.toList with
    | '\x7b' :: cs => entriesOf cs
    | _ => .error "expected an object"
  string text := (parse text.toList).bind Serde.string
  cursor text :=
    match parse text.toList with
    | some (.object members) => wireOf (named members)
    | _ => none

theorem mapM_entry (members : List Member) :
    (members.map Member.lexeme).mapM entry =
      some (members.map fun m => (String.ofList m.name, String.ofList m.text)) := by
  induction members with
  | nil => rfl
  | cons m members ih =>
    rw [List.map_cons, List.mapM_cons, ih, entry, Member.lexeme, text?_map_char]
    rfl

/-- The members of a record, each with the value it is read as. -/
def readable (members : List (String × Compact Char)) (h : ∀ m ∈ members, m.2 ≠ .object []) :
    List Member :=
  members.pmap (fun m hm => ⟨m.1.toList, m.2.text, m.2.value, Compact.reads hm⟩) h

theorem textJson_object {members : List (String × Compact Char)} (hne : members ≠ [])
    (h : ∀ m ∈ members, (∀ c ∈ m.1.toList, Verbatim c) ∧ m.2 ≠ .object []) :
    textJson.object (String.ofList (dumps members)) =
      .ok (members.map fun m => (m.1, String.ofList m.2.text), .ok ()) := by
  have hplain : ∀ m ∈ members, m.2 ≠ .object [] := fun m hm => (h m hm).2
  have hwritten : (readable members hplain).map Member.written =
      members.map fun m => (m.1.toList, m.2.text) := by
    rw [readable, List.map_pmap]
    exact List.pmap_eq_map (f := fun m => (m.1.toList, m.2.text)) hplain
  have hentries : (readable members hplain).map
      (fun m => (String.ofList m.name, String.ofList m.text)) =
      members.map fun m => (m.1, String.ofList m.2.text) := by
    rw [readable, List.map_pmap]
    simp only [String.ofList_toList]
    exact List.pmap_eq_map hplain
  have hnil : readable members hplain ≠ [] := by
    intro hnil
    exact hne (by simpa [readable] using hnil)
  have hlength : (memberTexts ((readable members hplain).map Member.written)).length <
      (memberTexts ((readable members hplain).map Member.written) ++ ['\x7d']).length + 1 := by
    rw [List.length_append]
    omega
  have hlexemes := lexemes_memberTexts hnil hlength []
  simp only [textJson, String.toList_ofList, dumps, objectText]
  rw [← hwritten, entriesOf, hlexemes]
  dsimp only
  rw [mapM_entry, hentries]
  rfl

theorem named_members (members : List (String × Scalar Char)) :
    named (members.map fun m => (m.1.toList.map .char, m.2.value)) =
      members.map fun m => (m.1, m.2.value) := by
  induction members with
  | nil => rfl
  | cons m members ih =>
    have hname : Rune.text? (m.1.toList.map .char) = some m.1 := by
      rw [text?_map_char, String.ofList_toList]
    rw [named] at ih ⊢
    simp [hname, ih]

/-- A number as an optional `u64`. -/
theorem u64_integer (n : Nat) : (Serde.u64 (.integer false n)).bind u64 = u64 n := by
  rw [Serde.u64]
  by_cases hn : n < 2 ^ 64
  · rw [if_pos hn, Option.bind_some]
  · rw [if_neg hn, Option.bind_none, u64, dif_neg hn]

theorem option_integer (n : Nat) :
    Serde.option (fun v => (Serde.u64 v).bind u64) (.integer false n) = (u64 n).map some := by
  rw [Serde.option, u64_integer]
  exact fun h => by cases h

theorem textJson_cursor (c : SourceCursor) :
    textJson.cursor (String.ofList (Compact.object (cursorMembers id c)).text) = cursorWire c := by
  have hparse : parse (Compact.object (cursorMembers id c)).text =
      some (Compact.object (cursorMembers id c)).value :=
    parse_of_reads (Compact.reads (by simp [cursorMembers]))
  have hkind : Serde.string (.string ((cursorKind c).toList.map .char)) = some (cursorKind c) := by
    rw [Serde.string, text?_map_char, String.ofList_toList]
  simp only [textJson, String.toList_ofList, hparse, Compact.value, named_members]
  cases c with
  | unsequenced counter =>
    simp [cursorMembers, cursorNumbers, wireOf, Serde.field, optionalU64, Serde.optionalField,
      occurrences, Scalar.value, option_integer, cursorWire, hkind]
    cases u64 counter <;> rfl
  | snapshotId lastUpdateId =>
    simp [cursorMembers, cursorNumbers, wireOf, Serde.field, optionalU64, Serde.optionalField,
      occurrences, Scalar.value, option_integer, cursorWire, hkind]
    cases u64 lastUpdateId <;> rfl
  | snapshotTime sourceTimeMs =>
    simp [cursorMembers, cursorNumbers, wireOf, Serde.field, optionalU64, Serde.optionalField,
      occurrences, Scalar.value, option_integer, cursorWire, hkind]
    cases u64 sourceTimeMs <;> rfl
  | updateRange first last previousLast =>
    simp [cursorMembers, cursorNumbers, wireOf, Serde.field, optionalU64, Serde.optionalField,
      occurrences, Scalar.value, option_integer, cursorWire, hkind]
    cases u64 first <;> cases u64 last <;> cases u64 previousLast <;> rfl

/-- The reader does with compact text what is asked of `serde_json`. -/
theorem readsCompact_textJson : ReadsCompact textJson where
  object _ hne h := textJson_object hne h
  string cs := by
    have hparse := parse_of_reads (reads_quote cs)
    simp only [textJson, String.toList_ofList, hparse, Option.bind_some, Serde.string,
      text?_map_char]
  cursor := textJson_cursor

/-! ## A trade of Kalshi's -/

/-- A recorded trade, its cursor left open. -/
def trade (sourceCursor : Option SourceCursor) : Given where
  deliveryIndex := 12
  recordId := ['k', 's', '-', 'a', '-', '3'].map .char
  visibleNs := 1785267959274886000
  monotonicNs := some 918273645
  venue := .kalshi
  stream := .publicTrade
  connectionEpoch := ['a'].map .char
  localCounter := 3
  sourceCursor
  kind := .venueFrame
  rawPayload := ['"', '\n', '"'].map .char
  envelopeVersion := 2

theorem trade_inRange (sourceCursor : Option SourceCursor) : (trade sourceCursor).InRange :=
  ⟨by simp [trade], by simp [trade], by simp [trade], by simp [trade]⟩

theorem trade_encodes {sourceCursor : Option SourceCursor}
    (hwidth : ((trade sourceCursor).members .char (trade sourceCursor).recordId
      (trade sourceCursor).connectionEpoch (trade sourceCursor).rawPayload).all
        (·.2.width ≤ 4300) = true) :
    ∃ record line, buildEnvelope (trade sourceCursor).arguments = .ok record ∧
      encodeEnvelope 4300 record = .ok line := by
  have hrecord : IsIdentifier ['k', 's', '-', 'a', '-', '3'] :=
    ⟨by decide, by simp [Verbatim]⟩
  have hepoch : IsIdentifier ['a'] := ⟨by decide, by simp [Verbatim]⟩
  exact ⟨_, _, buildEnvelope_of_identifiers rfl hrecord rfl hepoch (Or.inr ⟨rfl, by simp [trade]⟩),
    encodeEnvelope_of_text hwidth (recordChars?_members _ _ _ _) (newline_notMem_dumps _)⟩

/-! ## The line as the reader sees it -/

/-- What `build_envelope` and `encode_envelope` let through is one line that reads as it was
    given, just if the numbers of its cursor are `u64`; and both sides accept the same
    identifiers. -/
theorem encoded_reads_iff {json : SerdeJson} (hjson : ReadsCompact json) {digits : Nat}
    {g : Given} (hg : g.InRange) {record : Record} {line : List UInt8}
    (hbuild : buildEnvelope g.arguments = .ok record)
    (hencode : encodeEnvelope digits record = .ok line) :
    ((line.count 10 = 1 ∧ line.getLast? = some 10 ∧
        ∃ view, EnvelopeView.parse json line = .ok view ∧ g.SaidBy view) ↔
      ∀ c ∈ g.sourceCursor, c.InRange) ∧
    ∀ runes field, (∃ text, identifier (.str runes) field = .ok text) ↔
      ∃ cs, runes = cs.map .char ∧
        ∃ text, Continuity.identifier (String.ofList (quote cs)) field = .ok text := by
  refine ⟨⟨?_, ?_⟩, identifier_iff⟩
  · rintro ⟨-, -, view, hview, -⟩
    exact inRange_of_parse hjson hbuild hencode hview
  · intro hcursor
    refine ⟨?_, ?_, parse_of_inRange hjson hbuild hencode hg hcursor⟩
    all_goals obtain ⟨_, _, _, -, -, -, -, rfl⟩ := line_of_encode hbuild hencode
    · rw [List.count_append, List.count_eq_zero.mpr (newline_notMem_utf8Bytes _)]
      rfl
    · exact List.getLast?_concat

theorem encoded_reads_iff_sample : ∃ record line,
    buildEnvelope (trade (some (.updateRange 7 7 6))).arguments = .ok record ∧
      encodeEnvelope 4300 record = .ok line ∧
      ∃ view, EnvelopeView.parse textJson line = .ok view ∧
        (trade (some (.updateRange 7 7 6))).SaidBy view := by
  obtain ⟨record, line, hbuild, hencode⟩ :=
    @trade_encodes (some (.updateRange 7 7 6)) (by decide)
  have hreads := (encoded_reads_iff readsCompact_textJson (trade_inRange _) hbuild hencode).1.mpr
  obtain ⟨-, -, hview⟩ := hreads (by simp [trade, SourceCursor.InRange])
  exact ⟨record, line, hbuild, hencode, hview⟩

/-- A trade whose number is one too large for a `u64`. -/
def oversized : String := "\x7b\"type\":\"trade\",\"seq\":18446744073709551616\x7d"

set_option maxRecDepth 4000 in
theorem toList_oversized : oversized.toList =
    (Compact.object [("type", .string "trade".toList), ("seq", .number (2 ^ 64))]).text := rfl

theorem frameCursor_oversized : Kalshi.frameCursor ⟨4300, 1000⟩ 3 oversized =
    .ok (cursorMembers .char (.updateRange (2 ^ 64) (2 ^ 64) (2 ^ 64 - 1))) := by
  have hparse : parse oversized.toList = some
      (Compact.object [("type", .string "trade".toList), ("seq", .number (2 ^ 64))]).value := by
    rw [toList_oversized]
    exact parse_of_reads (Compact.reads (by simp))
  have hwithin : within 4300 1000
      (Compact.object [("type", .string "trade".toList), ("seq", .number (2 ^ 64))]).value =
        true := by decide +kernel
  rw [Kalshi.frameCursor, Kalshi.loads, hparse]
  dsimp only
  rw [if_pos hwithin]
  rfl

/-- Its cursor is built and written, and no reader takes the line. -/
theorem oversized_unreadable : ∃ c record line,
    Kalshi.frameCursor ⟨4300, 1000⟩ 3 oversized = .ok (cursorMembers .char c) ∧
      buildEnvelope (trade (some c)).arguments = .ok record ∧
      encodeEnvelope 4300 record = .ok line ∧
      ∀ json, ReadsCompact json → ¬∃ view, EnvelopeView.parse json line = .ok view := by
  obtain ⟨record, line, hbuild, hencode⟩ :=
    @trade_encodes (some (.updateRange (2 ^ 64) (2 ^ 64) (2 ^ 64 - 1))) (by decide +kernel)
  refine ⟨_, record, line, frameCursor_oversized, hbuild, hencode, ?_⟩
  rintro json hjson ⟨view, hview⟩
  have hrange := inRange_of_parse hjson hbuild hencode hview _ rfl
  exact absurd hrange.1 (lt_irrefl _)

end PredictionIndexer.Splices.Envelope
