import PredictionIndexer.Ingest.Batch

/-!
# What one ingest step does

One inversion lemma for each call on the store and each layer of `commit_batch`: what has to hold
for it to succeed, and the state it leaves behind. Every later result about ingestion starts from
these and unfolds nothing.
-/

namespace PredictionIndexer.Ingest

open Continuity Durable Fallible

/-! ## Store calls -/

theorem storeCall_eq_ok {α : Type} {x : Except StoreError α} {a : α} :
    storeCall x = .ok a ↔ x = .ok a := by
  cases x <;> simp [storeCall]

theorem classified_eq_ok {α : Type} {x : Except Halt α} {a : α} :
    classified x = .ok a ↔ x = .ok a := by
  cases x <;> simp [classified]

theorem captureRaw_eq_ok {h : Hashes} {s s' : Store} {venue spoolFile : String} {byteOffset : Nat}
    {rawLine content : List UInt8} {captured : CapturedRecord}
    (hc : s.captureRaw h venue spoolFile byteOffset rawLine content = .ok (captured, s')) :
    captured.seq.get = s.nextEvidence ∧ captured.contentHash = h.content content ∧
      s.nextEvidence ∉ s.tables.evidence ∧
      s' = { s with
        tables := { s.tables with evidence := s.tables.evidence.insert s.nextEvidence {
          venue, spoolFile, byteOffset, evidenceHash := h.evidence rawLine
          contentHash := (h.content content).toHex, rawLine } }
        nextEvidence := s.nextEvidence + 1 } := by
  unfold Store.captureRaw at hc
  split at hc
  · split at hc
    · cases hc
    · split at hc
      · cases hc
      · rename_i hnew
        cases hc
        exact ⟨rfl, rfl, by simpa using hnew, rfl⟩
  · cases hc

theorem commitFact_eq_ok {h : Hashes} {s s' : Store} {captured : CapturedRecord}
    {canonical : List UInt8} {seq : FactSeq}
    (hc : s.commitFact h captured canonical = .ok (seq, s')) :
    seq = captured.position ∧ captured.seq.get ∉ s.tables.facts ∧
      captured.seq.get ∈ s.tables.evidence ∧
      s' = { s with tables := { s.tables with
        facts := s.tables.facts.insert captured.seq.get ⟨h.fact canonical, canonical⟩ } } := by
  simp only [Store.commitFact] at hc
  split at hc
  · cases hc
  · split at hc
    · cases hc
    · rename_i hfacts hevidence
      cases hc
      exact ⟨rfl, by simpa using hfacts, by simpa using hevidence, rfl⟩

/-- The insert of a first observation, or none. -/
theorem rememberFirst_eq_ok {s s' : Store} {verdict : IdentityVerdict} {recordId : String}
    {content : ContentHash} {seq : FactSeq}
    (h : rememberFirst s verdict recordId content seq = .ok s') :
    s' = { s with tables := { s.tables with identity := s'.tables.identity } } ∧
      ∀ k, s'.recordIdentity k = if k = recordId ∧ verdict = .unseen then some ⟨content, seq⟩
        else s.recordIdentity k := by
  unfold rememberFirst at h
  split at h
  · rename_i hunseen
    simp only [Store.rememberRecordIdentity] at h
    split at h
    · cases h
    · cases h
      refine ⟨rfl, ?_⟩
      intro k
      show (s.tables.identity.insert recordId ⟨content, seq⟩)[k]? = _
      rw [Std.ExtTreeMap.getElem?_insert]
      by_cases hk : k = recordId
      · subst hk
        simp [hunseen]
      · simp [hk, Ne.symm hk, Store.recordIdentity]
  · rename_i hseen
    cases h
    exact ⟨rfl, by simp [hseen]⟩

/-! ## Lines and batches -/

/-- What a parsed line leaves behind when its transaction goes on. -/
theorem commitView_eq_ok {env : IngestEnv} {s s' : IngestState} {captured : CapturedRecord}
    {view : EnvelopeView} {fact : ContinuityFact}
    (h : commitView env s captured view = .ok (s', fact)) :
    ∃ seq store, s.classifier.classifyWithIdentity env.mode env.contentHash view captured.position
        (storeVerdict s.store view.recordId captured.contentHash) = .ok fact ∧
      s.store.commitFact env.hashes captured fact.canonicalBytes = .ok (seq, store) ∧
      rememberFirst store (storeVerdict s.store view.recordId captured.contentHash) view.recordId
        captured.contentHash seq = .ok s'.store ∧
      s'.classifier = s.classifier.apply fact ∧
      s'.tracker = s.tracker.observeEnvelope view := by
  unfold commitView at h
  obtain ⟨fact', hfact, h⟩ := Except.bind_eq_ok.mp h
  obtain ⟨⟨seq, store⟩, hcommit, h⟩ := Except.bind_eq_ok.mp h
  obtain ⟨store', hremember, h⟩ := Except.bind_eq_ok.mp h
  cases h
  exact ⟨seq, store, classified_eq_ok.mp hfact, storeCall_eq_ok.mp hcommit,
    storeCall_eq_ok.mp hremember, rfl, rfl⟩

/-- A line is captured, and goes on when it parses. -/
theorem commitLine_eq_ok {env : IngestEnv} {lane key : String} {s s' : IngestState}
    {entry : Nat × List UInt8} {fact : Option ContinuityFact}
    (h : commitLine env lane key s entry = .ok (s', fact)) :
    (∃ captured store, s.store.captureRaw env.hashes lane key entry.1 entry.2 entry.2 =
        .ok (captured, store) ∧ (EnvelopeView.parse env.json entry.2).toOption = none ∧
        fact = none ∧ s' = { s with store }) ∨
      ∃ view captured store f, EnvelopeView.parse env.json entry.2 = .ok view ∧
        s.store.captureRaw env.hashes lane key entry.1 entry.2 view.rawPayload.utf8Bytes =
          .ok (captured, store) ∧
        commitView env { s with store } captured view = .ok (s', f) ∧ fact = some f := by
  unfold commitLine at h
  cases hparse : EnvelopeView.parse env.json entry.2 with
  | error e =>
    rw [hparse] at h
    obtain ⟨⟨captured, store⟩, hcapture, h⟩ := Except.bind_eq_ok.mp h
    cases h
    exact .inl ⟨captured, store, storeCall_eq_ok.mp hcapture, rfl, rfl, rfl⟩
  | ok view =>
    rw [hparse] at h
    obtain ⟨⟨captured, store⟩, hcapture, h⟩ := Except.bind_eq_ok.mp h
    obtain ⟨⟨s₁, f⟩, hview, h⟩ := Except.bind_eq_ok.mp h
    cases h
    exact .inr ⟨view, captured, store, f, rfl, storeCall_eq_ok.mp hcapture, hview, rfl⟩

theorem commitLines_cons_eq_ok {env : IngestEnv} {lane key : String} {s s' : IngestState}
    {entry : Nat × List UInt8} {batch : List (Nat × List UInt8)} {facts : List ContinuityFact}
    (h : commitLines env lane key s (entry :: batch) = .ok (s', facts)) :
    ∃ s₁ fact rest, commitLine env lane key s entry = .ok (s₁, fact) ∧
      commitLines env lane key s₁ batch = .ok (s', rest) ∧ facts = fact.toList ++ rest := by
  unfold commitLines at h
  obtain ⟨⟨s₁, fact⟩, hline, h⟩ := Except.bind_eq_ok.mp h
  obtain ⟨⟨s₂, rest⟩, hrest, h⟩ := Except.bind_eq_ok.mp h
  cases h
  exact ⟨s₁, fact, rest, hline, hrest, rfl⟩

/-- A batch commits its lines and the cursor that covers them. -/
theorem commitBatch_eq_ok {env : IngestEnv} {lane key : String} {recordsBefore : Nat}
    {batch : List (Nat × List UInt8)} {s s' : IngestState} {facts : List ContinuityFact}
    (h : commitBatch env lane key recordsBefore batch s = .ok (s', facts)) :
    ∃ s₁, commitLines env lane key s batch = .ok (s₁, facts) ∧
      s' = { s₁ with
        store := s₁.store.advanceSpoolCursor key lane (batchEnd batch)
          (recordsBefore + facts.length) } := by
  unfold commitBatch Store.transaction at h
  cases hlines : commitLines env lane key s batch with
  | error e => simp [hlines] at h
  | ok p =>
    obtain ⟨s₁, facts₁⟩ := p
    simp only [hlines] at h
    cases h
    exact ⟨s₁, rfl, rfl⟩

/-- The marker advances the cursor to the end and records the segment. -/
theorem completeSegment_eq_ok {segment : Segment} {offset records : Nat} {s s' : IngestState}
    (h : completeSegment segment offset records s = .ok (s', ())) :
    ∃ store, (s.store.advanceSpoolCursor segment.key segment.lane offset
        records).completeSpoolSegment ⟨segment.key, segment.lane, segment.sha256,
          segment.byteLength, segment.lineCount⟩ = .ok store ∧ s' = { s with store } := by
  unfold completeSegment Store.transaction at h
  cases hc : (s.store.advanceSpoolCursor segment.key segment.lane offset
      records).completeSpoolSegment ⟨segment.key, segment.lane, segment.sha256,
        segment.byteLength, segment.lineCount⟩ with
  | error e => simp [hc] at h
  | ok store =>
    simp only [hc] at h
    cases h
    exact ⟨store, rfl, rfl⟩

end PredictionIndexer.Ingest
