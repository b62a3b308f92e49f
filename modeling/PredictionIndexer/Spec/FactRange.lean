import PredictionIndexer.Continuity.Fact
import PredictionIndexer.Spec.WindowVerdicts

/-!
# Every fact of a parsed line is encodable

The encoder writes identifiers without escapes and integers without a bound. Both are safe because
of what the envelope parser lets through and of what the classifier retains.

## Key results

- `EnvelopeView.parse_inRange`: identifiers of a parsed line are plain, its integers are `u64`
- `encodable_of_classify`: the fact of a view in range, classified over a state in range
- `ClassifierState.InRange.apply`: applying it keeps the state in range
-/

namespace PredictionIndexer.Continuity

open FlatJson Fallible

/-! ## What the parser lets through -/

/-- Quotes inside a string's lexeme are escaped, as JSON has it. -/
def SerdeJson.QuotesEscaped (json : SerdeJson) : Prop :=
  ∀ text entries trailing, json.object text = .ok (entries, trailing) →
    ∀ key lexeme, (key, lexeme) ∈ entries → ∀ inner : List Char,
      lexeme.toList = '"' :: (inner ++ ['"']) → '\\' ∉ inner → '"' ∉ inner

def SourceCursor.InRange : SourceCursor → Prop
  | unsequenced counter => counter < 2 ^ 64
  | snapshotId lastUpdateId => lastUpdateId < 2 ^ 64
  | snapshotTime sourceTimeMs => sourceTimeMs < 2 ^ 64
  | updateRange first last previousLast =>
    first < 2 ^ 64 ∧ last < 2 ^ 64 ∧ previousLast < 2 ^ 64

/-- Identifiers that need no escape, and integers of a `u64`. -/
structure EnvelopeView.InRange (view : EnvelopeView) : Prop where
  recordId : PlainText view.recordId
  connectionEpoch : PlainText view.connectionEpoch
  localCounter : view.localCounter < 2 ^ 64
  sourceCursor : ∀ cursor ∈ view.sourceCursor, cursor.InRange

/-- A lexeme whose inner quotes are escaped. -/
def EscapedLexeme (lexeme : String) : Prop :=
  ∀ inner : List Char, lexeme.toList = '"' :: (inner ++ ['"']) → '\\' ∉ inner → '"' ∉ inner

/-- A plain string is the text between the quotes of its lexeme. -/
theorem plainString_eq_ok {lexeme field text : String} (h : plainString lexeme field = .ok text) :
    lexeme.toList = '"' :: (text.toList ++ ['"']) ∧ '\\' ∉ text.toList := by
  simp only [plainString] at h
  split at h
  · cases h
  · rename_i hshape
    cases h
    simp only [Bool.or_eq_true, decide_eq_true_eq, not_or, not_lt, ne_eq, not_not,
      List.contains_eq_mem] at hshape
    obtain ⟨⟨⟨hlen, hhead⟩, hlast⟩, hescape⟩ := hshape
    rw [String.toList_ofList]
    refine ⟨?_, hescape⟩
    obtain ⟨rest, hrest⟩ := List.head?_eq_some_iff.mp hhead
    rw [hrest] at hlen hlast ⊢
    have hne : rest ≠ [] := by
      rintro rfl
      simp at hlen
    rw [List.getLast?_cons, List.getLast?_eq_some_getLast hne, Option.getD_some,
      Option.some.injEq] at hlast
    rw [List.drop_one, List.tail_cons, ← hlast, List.dropLast_concat_getLast hne]

theorem plainText_of_identifier {lexeme field text : String} (hlexeme : EscapedLexeme lexeme)
    (h : identifier lexeme field = .ok text) : PlainText text := by
  unfold identifier at h
  obtain ⟨text', hplain, h⟩ := Except.bind_eq_ok.mp h
  split at h
  · cases h
  · rename_i hascii
    cases h
    simp only [Bool.or_eq_true, not_or, List.any_eq_true, not_exists] at hascii
    obtain ⟨hinner, hescape⟩ := plainString_eq_ok hplain
    have hquote := hlexeme text.toList hinner hescape
    intro c hc
    refine ⟨?_, ?_, ?_⟩
    · rintro rfl
      exact hquote hc
    · rintro rfl
      exact hescape hc
    · have hcontrol := hascii.2 c
      simp only [hc, true_and, isAsciiControl, Bool.or_eq_true, decide_eq_true_eq] at hcontrol
      omega

theorem parseCursor_inRange {json : SerdeJson} {lexeme : String} {cursor : SourceCursor}
    (h : parseCursor json lexeme = .ok cursor) : cursor.InRange := by
  unfold parseCursor at h
  split at h
  · cases h
  · cases h
    exact Fin.isLt _
  · cases h
    exact Fin.isLt _
  · cases h
    exact Fin.isLt _
  · cases h
    exact ⟨Fin.isLt _, Fin.isLt _, Fin.isLt _⟩
  · cases h

/-- Slots that hold what `InRange` asks of the view. -/
structure Slots.InRange (s : Slots) : Prop where
  recordId : ∀ text ∈ s.recordId, PlainText text
  connectionEpoch : ∀ text ∈ s.connectionEpoch, PlainText text
  sourceCursor : ∀ cursor ∈ s.sourceCursor, ∀ c ∈ cursor, c.InRange

theorem setOnce_eq_ok {α : Type} {slot slot' : Option α} {value : α} {field : String}
    (h : setOnce slot value field = .ok slot') : slot' = some value := by
  unfold setOnce at h
  split at h <;> cases h
  rfl

theorem Slots.InRange.set {json : SerdeJson} {s s' : Slots} {key lexeme : String}
    (hs : s.InRange) (hlexeme : EscapedLexeme lexeme) (h : s.set json key lexeme = .ok s') :
    s'.InRange := by
  obtain ⟨hrecord, hepoch, hcursor⟩ := hs
  unfold Slots.set at h
  split at h
  case h_3 =>
    obtain ⟨text, htext, h⟩ := Except.bind_eq_ok.mp h
    obtain ⟨slot, hslot, h⟩ := Except.bind_eq_ok.mp h
    cases h
    refine ⟨?_, hepoch, hcursor⟩
    intro t ht
    rw [setOnce_eq_ok hslot] at ht
    cases ht
    exact plainText_of_identifier hlexeme htext
  case h_8 =>
    obtain ⟨text, htext, h⟩ := Except.bind_eq_ok.mp h
    obtain ⟨slot, hslot, h⟩ := Except.bind_eq_ok.mp h
    cases h
    refine ⟨hrecord, ?_, hcursor⟩
    intro t ht
    rw [setOnce_eq_ok hslot] at ht
    cases ht
    exact plainText_of_identifier hlexeme htext
  case h_10 =>
    have hset : ∃ cursor slot, (∀ c ∈ cursor, SourceCursor.InRange c) ∧
        setOnce s.sourceCursor cursor "source_cursor" = .ok slot ∧
        s' = { s with sourceCursor := slot } := by
      dsimp only at h
      split at h
      · rw [pure_bind] at h
        obtain ⟨slot, hslot, h⟩ := Except.bind_eq_ok.mp h
        cases h
        exact ⟨none, slot, by simp, hslot, rfl⟩
      · obtain ⟨cursor, hparse, h⟩ := Except.bind_eq_ok.mp h
        obtain ⟨slot, hslot, h⟩ := Except.bind_eq_ok.mp h
        cases h
        refine ⟨cursor, slot, ?_, hslot, rfl⟩
        cases hc : parseCursor json lexeme with
        | error e =>
          rw [hc] at hparse
          cases hparse
        | ok c =>
          rw [hc] at hparse
          cases hparse
          intro c' hc'
          cases hc'
          exact parseCursor_inRange hc
    obtain ⟨cursor, slot, hrange, hslot, rfl⟩ := hset
    refine ⟨hrecord, hepoch, ?_⟩
    intro t ht
    rw [setOnce_eq_ok hslot] at ht
    cases ht
    exact hrange
  case h_12 =>
    split at h
    · obtain ⟨slot, -, h⟩ := Except.bind_eq_ok.mp h
      cases h
      exact ⟨hrecord, hepoch, hcursor⟩
    · cases h
  case h_13 => cases h
  all_goals
    obtain ⟨value, -, h⟩ := Except.bind_eq_ok.mp h
    obtain ⟨slot, -, h⟩ := Except.bind_eq_ok.mp h
    cases h
    exact ⟨hrecord, hepoch, hcursor⟩

theorem Slots.InRange.foldl {json : SerdeJson} {l : List (String × String)}
    {p : Slots × Option EnvelopeError}
    (hl : ∀ key lexeme, (key, lexeme) ∈ l → EscapedLexeme lexeme) (hp : p.1.InRange) :
    (l.foldl (fun (s, rejected) (key, lexeme) =>
      match s.set json key lexeme with
      | .ok s' => (s', rejected)
      | .error e => (s, some e)) p).1.InRange := by
  induction l generalizing p with
  | nil => exact hp
  | cons entry l ih =>
    rw [List.foldl_cons]
    apply ih
    · exact fun key lexeme hm => hl key lexeme (List.mem_cons_of_mem _ hm)
    · dsimp only
      split
      · rename_i hset
        exact hp.set (hl entry.1 entry.2 List.mem_cons_self) hset
      · exact hp

/-- Every member a reading accepts keeps the slots in range. -/
theorem Slots.InRange.fill {json : SerdeJson} {entries : List (String × String)} {s : Slots}
    (hentries : ∀ key lexeme, (key, lexeme) ∈ entries → EscapedLexeme lexeme)
    (h : Slots.fill json entries = .ok s) : s.InRange := by
  have hnone : ({} : Slots).InRange := ⟨by simp, by simp, by simp⟩
  have hslots := @Slots.InRange.foldl json entries ({}, none) hentries hnone
  unfold Slots.fill at h
  dsimp only at h
  split at h
  · cases h
  · cases h
    exact hslots

theorem required_eq_ok {α : Type} {slot : Option α} {field : String} {a : α}
    (h : required slot field = .ok a) : slot = some a := by
  unfold required at h
  split at h <;> cases h
  rfl

/-- What `finish` does once the version fields agree. -/
def Slots.build (s : Slots) (shape : Nat × Option Nat) : Except EnvelopeError EnvelopeView := do
  let deliveryIndex ← required s.deliveryIndex "delivery_index"
  let recordId ← required s.recordId "record_id"
  let visibleNs ← required s.visibleNs "visible_ns"
  let venue ← required s.venue "venue"
  let stream ← required s.stream "stream"
  let connectionEpoch ← required s.connectionEpoch "connection_epoch"
  let localCounter ← required s.localCounter "local_counter"
  let sourceCursor ← required s.sourceCursor "source_cursor"
  let kind ← required s.kind "kind"
  let rawPayload ← required s.rawPayload "raw_payload"
  return {
    envelopeVersion := shape.1, deliveryIndex := deliveryIndex.val, recordId
    visibleNs := visibleNs.val, monotonicNs := shape.2, venue, stream, connectionEpoch
    localCounter := localCounter.val, sourceCursor, kind, rawPayload
    index_lt := U64.lt deliveryIndex }

theorem finish_shape {s : Slots} {view : EnvelopeView} (h : s.finish = .ok view) :
    ∃ shape, s.build shape = .ok view := by
  unfold Slots.finish at h
  dsimp only at h
  split at h
  · exact ⟨_, h⟩
  · split at h
    · split at h
      · exact ⟨_, h⟩
      · cases h
    · cases h
  · cases h

theorem Slots.InRange.finish {s : Slots} {view : EnvelopeView} (hs : s.InRange)
    (h : s.finish = .ok view) : view.InRange := by
  obtain ⟨shape, h⟩ := finish_shape h
  obtain ⟨deliveryIndex, -, h⟩ := Except.bind_eq_ok.mp h
  obtain ⟨recordId, hrecord, h⟩ := Except.bind_eq_ok.mp h
  obtain ⟨visibleNs, -, h⟩ := Except.bind_eq_ok.mp h
  obtain ⟨venue, -, h⟩ := Except.bind_eq_ok.mp h
  obtain ⟨stream, -, h⟩ := Except.bind_eq_ok.mp h
  obtain ⟨connectionEpoch, hepoch, h⟩ := Except.bind_eq_ok.mp h
  obtain ⟨localCounter, -, h⟩ := Except.bind_eq_ok.mp h
  obtain ⟨sourceCursor, hcursor, h⟩ := Except.bind_eq_ok.mp h
  obtain ⟨kind, -, h⟩ := Except.bind_eq_ok.mp h
  obtain ⟨rawPayload, -, h⟩ := Except.bind_eq_ok.mp h
  cases h
  exact ⟨hs.recordId recordId (required_eq_ok hrecord),
    hs.connectionEpoch connectionEpoch (required_eq_ok hepoch), localCounter.isLt,
    hs.sourceCursor sourceCursor (required_eq_ok hcursor)⟩

/-- Identifiers of a parsed line are plain, and its integers are `u64`. -/
theorem EnvelopeView.parse_inRange {json : SerdeJson} (hjson : json.QuotesEscaped)
    {line : List UInt8} {view : EnvelopeView} (h : EnvelopeView.parse json line = .ok view) :
    view.InRange := by
  unfold EnvelopeView.parse at h
  split at h
  · cases h
  · split at h
    · cases h
    · rename_i text _ entries trailing hobject
      obtain ⟨view', hview, h⟩ := Except.bind_eq_ok.mp h
      obtain ⟨s, hfill, hfinish⟩ := Except.bind_eq_ok.mp hview
      have hs : s.InRange := Slots.InRange.fill (hjson _ _ _ hobject) hfill
      split at h
      · cases h
        exact hs.finish hfinish
      · cases h

/-! ## What the classifier retains -/

/-- Counters and ordering keys of a `u64`. -/
structure ClassifierState.InRange (s : ClassifierState) : Prop where
  connections : ∀ (k : ConnectionKey) (n : Nat), s.connections[k]? = some n → n < 2 ^ 64
  orderingKey : ∀ (k : EpochKey) (n : Nat), s.orderingKey k = some n → n < 2 ^ 64

theorem add_lt {mode : Arithmetic} {a b c : Nat} (h : mode.add a b = .ok c) : c < 2 ^ 64 := by
  unfold Arithmetic.add at h
  split at h
  · cases h
    assumption
  · cases mode with
    | checked => cases h
    | wrapping =>
      cases h
      exact Nat.mod_lt _ (by decide)

/-- The integers a cause reports fit their fields. -/
def ContinuityCause.InRange (c : ContinuityCause) : Prop :=
  ∀ d ∈ c.detail, d.1 = "original" ∨ d.2 < 2 ^ 64

theorem classifyCursor_inRange {mode : Arithmetic} {previousKey : Option Nat}
    {cursor : Option SourceCursor} {cause : ContinuityCause}
    (hprevious : ∀ k ∈ previousKey, k < 2 ^ 64) (hcursor : ∀ c ∈ cursor, c.InRange)
    (h : classifyCursor mode previousKey cursor = .ok cause) : cause.InRange := by
  unfold classifyCursor at h
  split at h
  · cases h
    exact fun d hd => nomatch hd
  · cases h
    exact fun d hd => nomatch hd
  · cases h
    exact fun d hd => nomatch hd
  · cases h
    exact fun d hd => nomatch hd
  · rename_i first last previousLast
    obtain ⟨hfirst, hlast, -⟩ := hcursor _ rfl
    split at h
    · cases h
      exact fun d hd => nomatch hd
    · rename_i previous
      have hprev := hprevious previous rfl
      obtain ⟨follows, -, h⟩ := Except.bind_eq_ok.mp h
      split at h
      · cases h
        simp [-Nat.reducePow, ContinuityCause.InRange, ContinuityCause.detail, hfirst, hlast]
      · split at h
        · cases h
          simp [-Nat.reducePow, ContinuityCause.InRange, ContinuityCause.detail, hprev, hlast]
        · cases h
          simp [-Nat.reducePow, ContinuityCause.InRange, ContinuityCause.detail, hprev, hfirst]

theorem localBreak_inRange {mode : Arithmetic} {observed : Nat} {previous : Option Nat}
    {cause : ContinuityCause} (hobserved : observed < 2 ^ 64)
    (h : localBreak mode observed previous = .ok (some cause)) : cause.InRange := by
  cases previous with
  | none => cases h
  | some previous =>
    obtain ⟨expected, hexpected, hcause⟩ := Except.bind_eq_ok.mp h
    have hlt := add_lt hexpected
    split at hcause <;> cases hcause
    simp [-Nat.reducePow, ContinuityCause.InRange, ContinuityCause.detail, hlt, hobserved]

theorem cause_inRange {mode : Arithmetic} {c : Classifier} {view : EnvelopeView}
    {cause : ContinuityCause} (hc : c.state.InRange) (hview : view.InRange)
    (h : c.cause mode view = .ok cause) : cause.InRange := by
  unfold Classifier.cause classifyCause at h
  obtain ⟨broken, hbroken, h⟩ := Except.bind_eq_ok.mp h
  cases broken with
  | none =>
    dsimp only at h
    split at h
    · cases h
      exact fun d hd => nomatch hd
    · exact classifyCursor_inRange (fun k hk => hc.orderingKey _ k hk) hview.sourceCursor h
  | some broken =>
    cases h
    exact localBreak_inRange hview.localCounter hbroken

/-- The key of a view's cursor is one of its integers. -/
theorem EnvelopeView.InRange.monotonicKey {view : EnvelopeView} (hview : view.InRange) :
    ∀ k ∈ view.sourceCursor.bind SourceCursor.monotonicKey, k < 2 ^ 64 := by
  intro k hk
  obtain ⟨cursor, hcursor, hk⟩ := Option.bind_eq_some_iff.mp hk
  have hrange := hview.sourceCursor cursor hcursor
  cases cursor with
  | unsequenced counter => cases hk
  | snapshotId lastUpdateId =>
    cases hk
    exact hrange
  | snapshotTime sourceTimeMs =>
    cases hk
    exact hrange
  | updateRange first last previousLast =>
    cases hk
    exact hrange.2.1

/-- The fact of a parsed line, classified over a state in range, encodes. -/
theorem encodable_of_classify {mode : Arithmetic} {hash : String → ContentHash} {c : Classifier}
    {view : EnvelopeView} {position : FactSeq} {verdict : IdentityVerdict} {fact : ContinuityFact}
    (hc : c.state.InRange) (hview : view.InRange)
    (h : c.classifyWithIdentity mode hash view position verdict = .ok fact) : fact.Encodable := by
  have hfact : ∃ cause, cause.InRange ∧ fact = .accepted position view (Classifier.epochKey view)
      (hash view.rawPayload) cause := by
    unfold Classifier.classifyWithIdentity at h
    cases verdict with
    | unseen =>
      obtain ⟨cause, hcause, h⟩ := Except.bind_eq_ok.mp h
      cases h
      exact ⟨cause, cause_inRange hc hview hcause, rfl⟩
    | duplicate original =>
      cases h
      exact ⟨_, by simp [ContinuityCause.InRange, ContinuityCause.detail], rfl⟩
    | conflict original content =>
      cases h
      exact ⟨_, by simp [ContinuityCause.InRange, ContinuityCause.detail], rfl⟩
  obtain ⟨cause, hcause, rfl⟩ := hfact
  exact {
    recordId := hview.recordId
    epoch := hview.connectionEpoch
    localCounter := hview.localCounter
    deliveryIndex := view.index_lt
    monotonicKey := hview.monotonicKey
    detail := hcause }

/-- Applying an encodable fact keeps the retained integers in range. -/
theorem ClassifierState.InRange.apply {c : Classifier} {fact : ContinuityFact}
    (hc : c.state.InRange) (hfact : fact.Encodable) : (c.apply fact).state.InRange := by
  by_cases haccepted : fact.cause.Accepted
  · show (c.state.observe fact _).InRange
    rw [observe_of_accepted haccepted]
    constructor
    · intro k n hn
      rw [connections_accept] at hn
      split at hn
      · cases hn
        exact hfact.localCounter
      · exact hc.connections k n hn
    · intro k n hn
      rw [orderingKey_accept] at hn
      split at hn
      · unfold nextKey at hn
        split at hn
        · rename_i key hkey
          cases hn
          have hlt := hfact.monotonicKey key (by simp [hkey])
          cases hold : c.state.orderingKey k with
          | none => simpa [hold] using hlt
          | some old =>
            have := hc.orderingKey k old hold
            simp [-Nat.reducePow, hlt, this]
        · exact hc.orderingKey k n hn
      · exact hc.orderingKey k n hn
  · -- a duplicate or a conflict moves a count only
    have hsame : (c.apply fact).state.connections = c.state.connections ∧
        (c.apply fact).state.epochs = c.state.epochs := by
      show (c.state.observe fact _).connections = _ ∧ (c.state.observe fact _).epochs = _
      unfold ClassifierState.observe
      split
      · exact ⟨rfl, rfl⟩
      · exact ⟨rfl, rfl⟩
      · rename_i hdup hconf
        cases hcause : fact.cause <;> simp_all [ContinuityCause.Accepted]
    obtain ⟨hconn, hepochs⟩ := hsame
    constructor
    · rw [hconn]
      exact hc.connections
    · unfold ClassifierState.orderingKey
      rw [hepochs]
      exact hc.orderingKey

end PredictionIndexer.Continuity
