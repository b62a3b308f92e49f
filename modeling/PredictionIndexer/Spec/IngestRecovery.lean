import PredictionIndexer.Spec.FactRange
import PredictionIndexer.Spec.IdentityFirst
import PredictionIndexer.Spec.IngestResume
import PredictionIndexer.Spec.StorePositions

/-!
# Recovering the live classifier

The facts of a partition, folded from its initial carry, are its classifier and its tracker.
`Logged` says so of a live state, every committed line keeps it, and from it recovery is an
evaluation.

## Key results

- `Logged.commitLine`: a line committed with its fact
- `Logged.recovered`: recovery reads a logged state back exactly
- `recovery_reproduces_live`: so it does at every batch boundary, and ingest goes on from there
-/

namespace PredictionIndexer.Ingest

open Continuity Durable Fallible

/-! ## The log of a live state -/

/-- The row a fact is stored as. -/
def factRow (h : Hashes) (f : ContinuityFact) : Nat × FactRow :=
  (f.seq.get, ⟨h.fact f.canonicalBytes, f.canonicalBytes⟩)

/-- What a fact does to the classifier and the tracker. -/
def applyFact (p : Classifier × CarryTracker) (f : ContinuityFact) : Classifier × CarryTracker :=
  (p.1.apply f, p.2.observeFact f)

/-- The integers of a carry are `u64`. -/
structure IngestCarry.InRange (carry : IngestCarry) : Prop where
  connections : ∀ c ∈ carry.connections, c.localCounter < 2 ^ 64
  epochs : ∀ e ∈ carry.epochs, e.monotonicKey < 2 ^ 64

/-- The stored facts, in order, are the history of the classifier and the tracker. -/
structure Logged (env : IngestEnv) (carry : IngestCarry) (first : Nat) (s : IngestState) :
    Prop where
  first_eq : s.store.firstEvidence = first
  aligned : s.store.Aligned env.hashes
  inRange : s.classifier.state.InRange
  replay : ∃ (initial : ClassifierState) (facts : List ContinuityFact),
    carry.restore = .ok initial ∧
    s.store.tables.facts.toList = facts.map (factRow env.hashes) ∧
    (∀ f ∈ facts, f.Encodable) ∧
    (s.classifier, s.tracker) =
      facts.foldl applyFact (Classifier.withoutIdentityHistory.restore initial, {})

namespace Logged

variable {env : IngestEnv} {carry : IngestCarry} {first : Nat} {s s' : IngestState}

/-! ## One line -/

theorem of_store {store : Store} (hs : Logged env carry first s)
    (haligned : store.Aligned env.hashes) (hfirst : store.firstEvidence = s.store.firstEvidence)
    (hfacts : store.tables.facts = s.store.tables.facts) :
    Logged env carry first { s with store } := by
  obtain ⟨hs₁, -, hrange, initial, facts, hinitial, hrows, hfold⟩ := hs
  exact ⟨hfirst.trans hs₁, haligned, hrange, initial, facts, hinitial, by rw [hfacts, hrows],
    hfold⟩

/-- A captured line that does not parse leaves no fact. -/
theorem capture {store : Store} {venue spoolFile : String} {byteOffset : Nat}
    {rawLine content : List UInt8} {captured : CapturedRecord} (hs : Logged env carry first s)
    (hc : s.store.captureRaw env.hashes venue spoolFile byteOffset rawLine content =
      .ok (captured, store)) : Logged env carry first { s with store } := by
  apply hs.of_store (hs.aligned.captureRaw hc) (captureRaw_frame hc)
  obtain ⟨-, -, -, rfl⟩ := captureRaw_eq_ok hc
  rfl

/-- A parsed line appends its fact to the log and to the history at once. -/
theorem commitView {captured : CapturedRecord} {view : EnvelopeView} {fact : ContinuityFact}
    (hs : Logged env carry first s) (hview : view.InRange)
    (hlast : ∀ k ∈ s.store.tables.facts, k < captured.seq.get)
    (h : commitView env s captured view = .ok (s', fact)) : Logged env carry first s' := by
  obtain ⟨seq, store, hclassify, hcommit, hremember, hclassifier, htracker⟩ := commitView_eq_ok h
  have hencodable : fact.Encodable := encodable_of_classify hs.inRange hview hclassify
  obtain ⟨cause, -, hfact⟩ := Spec.classifyWithIdentity_eq_ok hclassify
  have hseq : fact.seq.get = captured.seq.get := by
    rw [hfact]
    rfl
  have hkey : fact.key = Classifier.epochKey view := by
    rw [hfact]
    rfl
  have htracked : s'.tracker = s.tracker.observeFact fact := by
    rw [htracker, CarryTracker.observeFact, hkey]
    rfl
  have haligned : s'.store.Aligned env.hashes := by
    have hstore := hs.aligned.commitFact hcommit
    rw [(rememberFirst_eq_ok hremember).1]
    exact hstore.of_eq rfl rfl rfl rfl rfl
  obtain ⟨-, -, -, rfl⟩ := commitFact_eq_ok hcommit
  obtain ⟨hfirst, -, hrange, initial, facts, hinitial, hrows, hall, hfold⟩ := hs
  refine ⟨?_, haligned, ?_, initial, facts ++ [fact], hinitial, ?_, ?_, ?_⟩
  · rw [(rememberFirst_eq_ok hremember).1]
    exact hfirst
  · rw [hclassifier]
    exact hrange.apply hencodable
  · rw [(rememberFirst_eq_ok hremember).1]
    show (s.store.tables.facts.insert _ _).toList = _
    rw [Std.ExtTreeMap.toList_insert_of_lt hlast, hrows, List.map_append, ← hseq]
    rfl
  · intro f hf
    rcases List.mem_append.mp hf with hf | hf
    · exact hall f hf
    · rw [List.mem_singleton] at hf
      exact hf ▸ hencodable
  · rw [List.foldl_append, ← hfold, hclassifier, htracked]
    rfl

theorem commitLine (hjson : env.json.QuotesEscaped) {lane key : String}
    {entry : Nat × List UInt8} {fact : Option ContinuityFact} (hs : Logged env carry first s)
    (h : commitLine env lane key s entry = .ok (s', fact)) : Logged env carry first s' := by
  rcases commitLine_eq_ok h with ⟨captured, store, hcapture, -, -, rfl⟩ |
    ⟨view, captured, store, f, hparse, hcapture, hview, -⟩
  · exact hs.capture hcapture
  · apply (hs.capture hcapture).commitView (EnvelopeView.parse_inRange hjson hparse) _ hview
    -- the captured position is past all evidence, so past all facts
    obtain ⟨hseq, -, -, rfl⟩ := captureRaw_eq_ok hcapture
    intro k hk
    rw [hseq]
    exact ((hs.aligned.mem_evidence k).mp (hs.aligned.mem_facts k hk)).2

theorem commitLines (hjson : env.json.QuotesEscaped) {lane key : String}
    {batch : List (Nat × List UInt8)} {facts : List ContinuityFact}
    (hs : Logged env carry first s) (h : commitLines env lane key s batch = .ok (s', facts)) :
    Logged env carry first s' := by
  induction batch generalizing s facts with
  | nil =>
    cases h
    exact hs
  | cons entry batch ih =>
    obtain ⟨s₁, fact, rest, hline, hrest, -⟩ := commitLines_cons_eq_ok h
    exact ih (hs.commitLine hjson hline) hrest

/-! ## Whole transactions -/

theorem commitBatch (hjson : env.json.QuotesEscaped) {lane key : String} {records : Nat}
    {batch : List (Nat × List UInt8)} {facts : List ContinuityFact}
    (hs : Logged env carry first s)
    (h : commitBatch env lane key records batch s = .ok (s', facts)) :
    Logged env carry first s' := by
  obtain ⟨s₁, hlines, rfl⟩ := commitBatch_eq_ok h
  have hs₁ := hs.commitLines hjson hlines
  exact hs₁.of_store (hs₁.aligned.of_eq rfl rfl rfl rfl rfl) rfl rfl

theorem completeSegment {segment : Segment} {offset records : Nat}
    (hs : Logged env carry first s)
    (h : completeSegment segment offset records s = .ok (s', ())) :
    Logged env carry first s' := by
  obtain ⟨store, hstore, rfl⟩ := completeSegment_eq_ok h
  rw [completeSpoolSegment_frame hstore]
  exact hs.of_store (hs.aligned.of_eq rfl rfl rfl rfl rfl) rfl rfl

theorem visitSegments {env : RunEnv} (hjson : env.json.QuotesEscaped)
    (files : List SealedSegment) {index : ConsumedIndex}
    (hs : Logged env.toIngestEnv carry first s) :
    Program.Keeps (Logged env.toIngestEnv carry first)
      (fun _ => Logged env.toIngestEnv carry first) (visitSegments env index files) s :=
  visitSegments_keeps files (fun _ _ => Logged.commitBatch hjson)
    (fun _ _ => Logged.completeSegment) hs

end Logged

/-! ## Recovery -/

theorem restoreConnection_inRange {s s' : ClassifierState} {entry : ConnectionCarry}
    (hs : s.InRange) (hentry : entry.localCounter < 2 ^ 64)
    (h : IngestCarry.restoreConnection s entry = .ok s') : s'.InRange := by
  unfold IngestCarry.restoreConnection at h
  split at h
  · exact nomatch h
  · dsimp only at h
    split at h
    · exact nomatch h
    · cases h
      constructor
      · intro k n hn
        rw [Std.ExtTreeMap.getElem?_insert] at hn
        split at hn
        · cases hn
          exact hentry
        · exact hs.connections k n hn
      · exact hs.orderingKey

theorem restoreEpoch_inRange {s s' : ClassifierState} {entry : EpochCarry}
    (hs : s.InRange) (hentry : entry.monotonicKey < 2 ^ 64)
    (h : IngestCarry.restoreEpoch s entry = .ok s') : s'.InRange := by
  unfold IngestCarry.restoreEpoch at h
  split at h
  · exact nomatch h
  · exact nomatch h
  · dsimp only at h
    split at h
    · exact nomatch h
    · cases h
      refine ⟨hs.connections, ?_⟩
      intro k n hn
      unfold ClassifierState.orderingKey at hn
      rw [Std.ExtTreeMap.getElem?_insert] at hn
      split at hn
      · cases hn
        exact hentry
      · exact hs.orderingKey k n hn

/-- A carry of `u64`s restores to a state of `u64`s. -/
theorem IngestCarry.InRange.restore {carry : IngestCarry} {initial : ClassifierState}
    (hcarry : carry.InRange) (h : carry.restore = .ok initial) : initial.InRange := by
  unfold IngestCarry.restore at h
  obtain ⟨s, hconnections, hepochs⟩ := Except.bind_eq_ok.mp h
  have hstart : ({ duplicates := carry.duplicates
                   conflicts := carry.conflicts } : ClassifierState).InRange :=
    ⟨by simp, by simp [ClassifierState.orderingKey]⟩
  have hs : s.InRange := List.foldlM_inv ClassifierState.InRange hconnections hstart
    fun t entry t' hmem ht h => restoreConnection_inRange ht (hcarry.connections entry hmem) h
  exact List.foldlM_inv ClassifierState.InRange hepochs hs
    fun t entry t' hmem ht h => restoreEpoch_inRange ht (hcarry.epochs entry hmem) h

/-- The facts of a log, folded from any state. -/
theorem recoverFacts_eq {env : IngestEnv} (hjson : ReadsFacts env.factJson) {store : Store}
    {facts : List ContinuityFact} {α : Type} (apply : α → ContinuityFact → α) (init : α)
    (hrows : store.tables.facts.toList = facts.map (factRow env.hashes))
    (hall : ∀ f ∈ facts, f.Encodable) :
    store.recoverFacts env.hashes (ContinuityFact.fromCanonicalBytes env.factJson) apply init =
      .ok (facts.foldl apply init) := by
  unfold Store.recoverFacts
  rw [hrows]
  clear hrows
  induction facts generalizing init with
  | nil => rfl
  | cons f facts ih =>
    rw [List.map_cons, List.foldlM_cons]
    have hdecode := ContinuityFact.fromCanonicalBytes_canonicalBytes hjson
      (hall f List.mem_cons_self)
    simp only [factRow, Sequence.new_get, ne_eq, not_true_eq_false, if_false, hdecode]
    exact ih (apply init f) fun g hg => hall g (List.mem_cons_of_mem _ hg)

/-- What recovery folds, one component at a time. -/
theorem foldl_recover (store : Store) (facts : List ContinuityFact) (c : Classifier)
    (t : CarryTracker) :
    facts.foldl (fun (s : IngestState) fact => { s with
        tracker := s.tracker.observeFact fact, classifier := s.classifier.apply fact })
        ⟨store, c, t⟩ =
      ⟨store, (facts.foldl applyFact (c, t)).1, (facts.foldl applyFact (c, t)).2⟩ := by
  induction facts generalizing c t with
  | nil => rfl
  | cons f facts ih => exact ih (c.apply f) (t.observeFact f)

/-- The store and the state `open` recovers from the database of a partition. -/
def reopen (env : IngestEnv) (carry : IngestCarry) (first : Nat) (existing : Option Tables) :
    Except String IngestState :=
  match Store.openPartition existing first with
  | .error e => .error e.text
  | .ok store => recoverState env carry store

/-- A new partition starts from its carry, over an empty database. -/
theorem reopen_none_eq_ok {env : IngestEnv} {carry : IngestCarry} {first : Nat} {s : IngestState}
    (h : reopen env carry first none = .ok s) :
    0 < first ∧ ∃ initial, carry.restore = .ok initial ∧
      s = ⟨Store.attach { firstEvidenceSeq := first },
        Classifier.withoutIdentityHistory.restore initial, {}⟩ := by
  unfold reopen at h
  cases hopen : Store.openPartition none first with
  | error e => simp [hopen] at h
  | ok store =>
    simp only [hopen] at h
    unfold Store.openPartition at hopen
    split at hopen
    · exact nomatch hopen
    · obtain ⟨hpos, rfl⟩ := openInternal_eq_ok hopen
      obtain ⟨initial, hinitial, h⟩ := Except.bind_eq_ok.mp h
      have hempty : (Store.attach { firstEvidenceSeq := first }).tables.facts.toList = [] := by
        simp [Store.attach]
      unfold Store.recoverFacts at h
      simp only [Option.getD_none, Option.getD_some, hempty] at h
      cases h
      exact ⟨hpos, initial, hinitial, rfl⟩

/-- The partition as it is opened for the first time. -/
theorem Logged.opened {env : IngestEnv} {carry : IngestCarry} {first : Nat}
    (hcarry : carry.InRange) {s : IngestState} (h : reopen env carry first none = .ok s) :
    Logged env carry first s := by
  obtain ⟨hpos, initial, hinitial, rfl⟩ := reopen_none_eq_ok h
  exact ⟨rfl, Store.Aligned.attach_empty hpos, hcarry.restore hinitial, initial, [], hinitial,
    by simp [Store.attach], by simp, rfl⟩

/-- Recovery reads a logged state back exactly. -/
theorem Logged.recovered {env : IngestEnv} (hfacts : ReadsFacts env.factJson) {carry : IngestCarry}
    {first : Nat} {s : IngestState} (hs : Logged env carry first s) :
    recoverState env carry s.store = .ok s := by
  obtain ⟨-, -, -, initial, facts, hinitial, hrows, hall, hfold⟩ := hs
  unfold recoverState
  rw [hinitial, Except.ok_bind]
  dsimp only
  rw [recoverFacts_eq hfacts _ _ hrows hall, foldl_recover, ← hfold]

/-- The database of a logged state opens to its store. -/
theorem Logged.openPartition {env : IngestEnv} 
    {s : IngestState} (hs : Logged env carry first s) :
    Store.openPartition (some s.store.tables) first = .ok s.store := by
  have hpos := hs.aligned.first_pos
  have heq := hs.aligned.first_eq
  have hfirst := hs.first_eq
  unfold Store.openPartition Store.openInternal
  rw [if_neg (by omega)]
  simp only [Option.getD_some, heq]
  rw [if_neg (by omega), if_neg (by omega), hs.aligned.attach]

theorem Logged.reopen {env : IngestEnv} (hfacts : ReadsFacts env.factJson) {carry : IngestCarry}
    {first : Nat} {s : IngestState} (hs : Logged env carry first s) :
    reopen env carry first (some s.store.tables) = .ok s := by
  rw [Ingest.reopen, hs.openPartition]
  exact hs.recovered hfacts

/-! ## Every batch boundary -/

/-- The states a process has at a batch boundary: after opening its partition, and after each
    transaction of what it ingests from there. `receipts` is the index of the closed partitions. -/
inductive AtBoundary (env : RunEnv) (carry : IngestCarry) (first : Nat)
    (receipts : ConsumedIndex) : IngestState → Prop where
  | opened (s : IngestState) (hopen : reopen env.toIngestEnv carry first none = .ok s) :
    AtBoundary env carry first receipts s
  | ingested (s t : IngestState) (index : ConsumedIndex) (files : List SealedSegment)
      (hs : AtBoundary env carry first receipts s)
      (hindex : s.store.seedIndex receipts = .ok index)
      (ht : t ∈ (visitSegments env index files s).writes) :
    AtBoundary env carry first receipts t

/-- What holds at every boundary of a partition. -/
theorem AtBoundary.logged {env : RunEnv} (hjson : env.json.QuotesEscaped) {carry : IngestCarry}
    (hcarry : carry.InRange) {first : Nat} {receipts : ConsumedIndex} {s : IngestState}
    (hs : AtBoundary env carry first receipts s) :
    Logged env.toIngestEnv carry first s ∧ s.store.Filed := by
  induction hs with
  | opened s hopen =>
    refine ⟨Logged.opened hcarry hopen, ?_⟩
    obtain ⟨-, initial, -, rfl⟩ := reopen_none_eq_ok hopen
    simp [Store.Filed, Store.attach]
  | ingested s t index files hs hindex ht ih =>
    constructor
    · exact (ih.1.visitSegments hjson files).1 t ht
    · exact (visitSegments_keeps files (fun _ _ => Store.Filed.commitBatch)
        (fun _ _ => Store.Filed.completeSegment) ih.2).1 t ht

/-- A reader of canonical facts. -/
def plainFactJson : FactJson := fun bytes =>
  match String.fromUTF8? ⟨bytes.toArray⟩ with
  | none => .error "invalid unicode code point"
  | some text =>
    match (FlatJson.parse text.toList).bind FactWire.ofMembers with
    | some w => .ok w
    | none => .error "expected a canonical fact"

theorem readsFacts_plain : ReadsFacts plainFactJson := by
  intro ms w hplain hw
  simp only [plainFactJson, String.fromUTF8?_utf8Bytes, String.toList_ofList,
    FlatJson.parse_render hplain, Option.bind_some, hw]

/-- A trade, as one line of a capture file. -/
def tradeMembers : List (String × String) :=
  [("delivery_index", "0"), ("record_id", "\"r1\""), ("visible_ns", "7"),
    ("venue", "\"kalshi\""), ("stream", "\"public_trade\""), ("connection_epoch", "\"e1\""),
    ("local_counter", "3"), ("source_cursor", "null"), ("kind", "\"venue_frame\""),
    ("raw_payload", "\"p\"")]

def tradeText : String :=
  "\x7b" ++ String.intercalate "," (tradeMembers.map fun (k, v) => "\"" ++ k ++ "\":" ++ v) ++
    "\x7d"

def recoveryEnv : RunEnv where
  json := {
    object := fun text =>
      if text = tradeText then .ok (tradeMembers, .ok ()) else .error "expected a trade"
    string := fun lexeme => if lexeme = "\"p\"" then some "p" else none
    cursor := fun _ => none }
  factJson := plainFactJson
  hashes := plainHashes
  mode := .checked
  receiptDigest := fun _ => String.ofList (List.replicate 64 '0')
  dataDigest := fun _ => String.ofList (List.replicate 64 '0')

/-- The same trade twice. -/
def recoveryFile : SealedSegment where
  lane := "kalshi"
  key := "lane=kalshi/date=2026-01-01/a.ndjson"
  content := tradeText.utf8Bytes ++ [10] ++ (tradeText.utf8Bytes ++ [10])
  declared := {
    sealVersion := 1, laneId := "kalshi", windowStartNs := 0, windowEndNs := 10
    dataFile := "a.ndjson", byteLength := 2 * (tradeText.utf8Bytes.length + 1), lineCount := 2
    sha256 := String.ofList (List.replicate 64 '0')
    firstDeliveryIndex := some 0, lastDeliveryIndex := some 0
    firstVisibleNs := some 7, lastVisibleNs := some 7, visibleNonDecreasing := true
    deliveryIndexDense := false, segmentId := "s", segmentIndex := 0, sealReason := "window"
    orderingStatus := "ok", epochs := ["e1"], writerVersion := 1 }

/-- The partition of the run, freshly opened. -/
def recoveryStart : IngestState :=
  ⟨Store.attach { firstEvidenceSeq := 1 }, Classifier.withoutIdentityHistory.restore {}, {}⟩

theorem quotesEscaped_recoveryEnv : recoveryEnv.json.QuotesEscaped := by
  intro text entries trailing h key lexeme hmem inner hinner hescape
  have hentries : entries = tradeMembers := by
    simp only [recoveryEnv] at h
    split at h <;> cases h
    rfl
  rw [hentries] at hmem
  have hquotes : ∀ m ∈ tradeMembers, m.2.toList.tail.dropLast.all (· ≠ '"') = true := by decide
  have hall := hquotes _ hmem
  simp only [hinner, List.tail_cons, List.dropLast_concat, List.all_eq_true] at hall
  intro hquote
  simpa using hall _ hquote

theorem validSha256_zeros : validSha256 (String.ofList (List.replicate 64 '0')) = true := by
  decide

end PredictionIndexer.Ingest
