import PredictionIndexer.Ingest.Run
import PredictionIndexer.Spec.IngestSteps

/-!
# Resuming a segment

A segment is ingested in batches, and each batch moves the durable cursor to its end. A process that
starts again at any of these cursors commits exactly the batches that were left.

## Key results

- `linesFrom_suffix`, `batchesFrom_cons`: reading from a cursor gives the lines and batches left
- `ingestFile_resumes`: `ingest_file` from any of its own durable states is the rest of itself
- `visitSegments_resumes`: the same for a list of segments, with the consumed index rebuilt
-/

namespace PredictionIndexer.Ingest

open Continuity Durable Fallible

/-! ## Lines from a cursor -/

theorem linesFrom_cons {start : Nat} {line bytes : List UInt8} {entry : Nat × List UInt8}
    {lines : List (Nat × List UInt8)} (h : linesFrom start line bytes = entry :: lines) :
    ∃ pre post, bytes = pre ++ 10 :: post ∧ entry = (start, line ++ pre ++ [10]) ∧
      lines = linesFrom (start + entry.2.length) [] post := by
  induction bytes generalizing line with
  | nil => exact nomatch h
  | cons b bytes ih =>
    unfold linesFrom at h
    split at h
    · rename_i hb
      subst hb
      cases h
      exact ⟨[], bytes, by simp, by simp, by simp [Nat.add_assoc]⟩
    · obtain ⟨pre, post, rfl, rfl, hlines⟩ := ih h
      exact ⟨b :: pre, post, by simp, by simp, by simpa using hlines⟩

@[simp] theorem durableOffset_nil (start : Nat) : durableOffset start [] = start := rfl

theorem durableOffset_cons (start : Nat) (entry : Nat × List UInt8)
    (lines : List (Nat × List UInt8)) :
    durableOffset start (entry :: lines) = durableOffset (entry.1 + entry.2.length) lines := by
  cases lines with
  | nil => rfl
  | cons next lines => simp [durableOffset, List.getLast?_cons]

theorem durableOffset_append (start : Nat) (xs ys : List (Nat × List UInt8)) :
    durableOffset start (xs ++ ys) = durableOffset (durableOffset start xs) ys := by
  induction xs generalizing start with
  | nil => rfl
  | cons x xs ih => rw [List.cons_append, durableOffset_cons, durableOffset_cons, ih]

/-- The lines after some of the lines are those read from the end of the last of them. -/
theorem linesFrom_suffix {content : List UInt8} {start : Nat} {xs ys : List (Nat × List UInt8)}
    (hstart : start ≤ content.length)
    (h : linesFrom start [] (content.drop start) = xs ++ ys) :
    durableOffset start xs ≤ content.length ∧
      linesFrom (durableOffset start xs) [] (content.drop (durableOffset start xs)) = ys := by
  induction xs generalizing start with
  | nil => exact ⟨hstart, h⟩
  | cons x xs ih =>
    obtain ⟨pre, post, hbytes, rfl, hlines⟩ := linesFrom_cons h
    have hdrop : content.drop (start + (pre ++ [10]).length) = post := by
      rw [← List.drop_drop, hbytes]
      simp
    have hlength : start + (pre ++ [10]).length ≤ content.length := by
      have hsum : (content.drop start).length = (pre ++ 10 :: post).length := by rw [hbytes]
      simp only [List.length_drop, List.length_append, List.length_cons] at hsum
      simp only [List.length_append, List.length_singleton]
      omega
    rw [durableOffset_cons]
    apply ih hlength
    rw [hdrop]
    exact hlines.symm

/-! ## Batches -/

/-- A batch is a run of the lines, and the batches after it are those of the lines left. -/
theorem batchesFrom_cons {batch lines b : List (Nat × List UInt8)}
    {bs : List (List (Nat × List UInt8))} (h : batchesFrom batch lines = b :: bs) :
    ∃ rest, batch ++ lines = b ++ rest ∧ b ≠ [] ∧ bs = batchesFrom [] rest := by
  induction lines generalizing batch with
  | nil =>
    unfold batchesFrom at h
    split at h
    · exact nomatch h
    · rename_i hne
      cases h
      exact ⟨[], rfl, by simpa using hne, rfl⟩
  | cons entry lines ih =>
    unfold batchesFrom at h
    split at h
    · cases h
      exact ⟨lines, by simp, by simp, rfl⟩
    · obtain ⟨rest, hrest, hne, hbs⟩ := ih h
      exact ⟨rest, by simpa using hrest, hne, hbs⟩

/-- Only an empty run of lines has no batch. -/
theorem batchesFrom_eq_nil {batch lines : List (Nat × List UInt8)}
    (h : batchesFrom batch lines = []) : batch = [] ∧ lines = [] := by
  induction lines generalizing batch with
  | nil =>
    unfold batchesFrom at h
    split at h
    · rename_i hempty
      exact ⟨by simpa using hempty, rfl⟩
    · exact nomatch h
  | cons entry lines ih =>
    unfold batchesFrom at h
    split at h
    · exact nomatch h
    · exact absurd (ih h).1 (by simp)

/-- The end of a nonempty batch is where its lines end. -/
theorem batchEnd_eq {batch : List (Nat × List UInt8)} (h : batch ≠ []) (start : Nat) :
    batchEnd batch = durableOffset start batch := by
  obtain ⟨entry, hentry⟩ := Option.ne_none_iff_exists'.mp (mt List.getLast?_eq_none_iff.mp h)
  simp [batchEnd, durableOffset, hentry]

/-! ## What a batch leaves alone -/

/-- The tables a batch of lines does not write. -/
structure SameProgress (s s' : Store) : Prop where
  consumed : s'.tables.consumed = s.tables.consumed
  cursors : s'.tables.cursors = s.tables.cursors
  firstEvidence : s'.firstEvidence = s.firstEvidence

theorem SameProgress.trans {s s₁ s₂ : Store} (h : SameProgress s s₁) (h' : SameProgress s₁ s₂) :
    SameProgress s s₂ :=
  ⟨h'.consumed.trans h.consumed, h'.cursors.trans h.cursors,
    h'.firstEvidence.trans h.firstEvidence⟩

theorem captureRaw_progress {h : Hashes} {s s' : Store} {venue spoolFile : String}
    {byteOffset : Nat} {rawLine content : List UInt8} {captured : CapturedRecord}
    (hc : s.captureRaw h venue spoolFile byteOffset rawLine content = .ok (captured, s')) :
    SameProgress s s' := by
  obtain ⟨-, -, -, rfl⟩ := captureRaw_eq_ok hc
  exact ⟨rfl, rfl, rfl⟩

theorem commitView_progress {env : IngestEnv} {s s' : IngestState} {captured : CapturedRecord}
    {view : EnvelopeView} {fact : ContinuityFact}
    (h : commitView env s captured view = .ok (s', fact)) : SameProgress s.store s'.store := by
  obtain ⟨seq, store, -, hcommit, hremember, -, -⟩ := commitView_eq_ok h
  obtain ⟨-, -, -, rfl⟩ := commitFact_eq_ok hcommit
  rw [(rememberFirst_eq_ok hremember).1]
  exact ⟨rfl, rfl, rfl⟩

theorem commitLine_progress {env : IngestEnv} {lane key : String} {s s' : IngestState}
    {entry : Nat × List UInt8} {fact : Option ContinuityFact}
    (h : commitLine env lane key s entry = .ok (s', fact)) : SameProgress s.store s'.store := by
  rcases commitLine_eq_ok h with ⟨captured, store, hcapture, -, -, rfl⟩ |
    ⟨view, captured, store, f, -, hcapture, hview, -⟩
  · exact captureRaw_progress hcapture
  · exact (captureRaw_progress hcapture).trans (commitView_progress hview)

theorem commitLines_progress {env : IngestEnv} {lane key : String} {s s' : IngestState}
    {batch : List (Nat × List UInt8)} {facts : List ContinuityFact}
    (h : commitLines env lane key s batch = .ok (s', facts)) : SameProgress s.store s'.store := by
  induction batch generalizing s facts with
  | nil =>
    cases h
    exact ⟨rfl, rfl, rfl⟩
  | cons entry batch ih =>
    obtain ⟨s₁, fact, rest, hline, hrest, -⟩ := commitLines_cons_eq_ok h
    exact (commitLine_progress hline).trans (ih hrest)

/-- A batch leaves its own cursor at its end, and no segment consumed. -/
theorem commitBatch_progress {env : IngestEnv} {lane key : String} {records : Nat}
    {batch : List (Nat × List UInt8)} {s s' : IngestState} {facts : List ContinuityFact}
    (h : commitBatch env lane key records batch s = .ok (s', facts)) :
    s'.store.tables.consumed = s.store.tables.consumed ∧
      (s'.store.spoolCursor key).map (fun c => (c.bytesConsumed, c.records)) =
        some (batchEnd batch, records + facts.length) := by
  obtain ⟨s₁, hlines, rfl⟩ := commitBatch_eq_ok h
  refine ⟨(commitLines_progress hlines).consumed, ?_⟩
  simp only [Store.spoolCursor, Store.advanceSpoolCursor, Std.ExtTreeMap.getElem?_insert_self]
  cases s₁.store.tables.cursors[key]? <;> rfl

/-! ## The rest of a segment -/

/-- The batches left of a segment, and the marker after them. -/
def commitRest (env : IngestEnv) (segment : Segment) (offset records : Nat)
    (batches : List (List (Nat × List UInt8))) : Program IngestState IngestError Unit := do
  let records ← commitBatches env segment.lane segment.key records batches
  .attempt (completeSegment segment offset records)

theorem commitRest_nil (env : IngestEnv) (segment : Segment) (offset records : Nat) :
    commitRest env segment offset records [] =
      Program.attempt (completeSegment segment offset records) := by
  funext s
  exact Program.bind_apply_nil rfl

theorem commitRest_cons (env : IngestEnv) (segment : Segment) (offset records : Nat)
    (b : List (Nat × List UInt8)) (bs : List (List (Nat × List UInt8))) :
    commitRest env segment offset records (b :: bs) =
      Program.attempt (commitBatch env segment.lane segment.key records b) >>= fun facts =>
        commitRest env segment offset (records + facts.length) bs := by
  rw [commitRest, commitBatches, Program.bind_assoc]
  rfl

/-- `ingest_file` is refused, or is the rest of its segment from where its cursor stands. -/
theorem ingestFile_apply (env : IngestEnv) (segment : Segment) (s : IngestState) :
    (∃ e, ingestFile env segment s = ⟨[], .error e⟩) ∨
      ∃ already records, already ≤ segment.content.length ∧
        (∀ c, s.store.spoolCursor segment.key = some c →
          already = c.bytesConsumed ∧ records = c.records) ∧
        ingestFile env segment s =
          commitRest env segment
            (durableOffset already (linesFrom already [] (segment.content.drop already))) records
            (batchesFrom [] (linesFrom already [] (segment.content.drop already))) s := by
  unfold ingestFile
  rw [Program.read_bind_apply]
  dsimp only
  split
  · exact .inl ⟨_, rfl⟩
  · rename_i hle
    right
    refine ⟨_, _, Nat.le_of_not_gt hle, ?_, rfl⟩
    intro c hc
    simp [hc]

/-- A cursor that is there is where `ingest_file` goes on. -/
theorem ingestFile_of_cursor {env : IngestEnv} {segment : Segment} {s : IngestState}
    {already records : Nat}
    (hcursor : (s.store.spoolCursor segment.key).map (fun c => (c.bytesConsumed, c.records)) =
      some (already, records)) (hle : already ≤ segment.content.length) :
    ingestFile env segment s =
      commitRest env segment
        (durableOffset already (linesFrom already [] (segment.content.drop already))) records
        (batchesFrom [] (linesFrom already [] (segment.content.drop already))) s := by
  obtain ⟨cursor, hc, hpair⟩ := Option.map_eq_some_iff.mp hcursor
  cases hpair
  unfold ingestFile
  rw [Program.read_bind_apply]
  simp only [hc, Option.map_some, Option.getD_some]
  rw [if_neg (by omega)]
  rfl

/-- The identity a completed segment is recorded under. -/
def Segment.record (segment : Segment) : ConsumedSegment :=
  ⟨segment.key, segment.lane, segment.sha256, segment.byteLength, segment.lineCount⟩

theorem completeSegment_consumed {segment : Segment} {offset records : Nat} {s s' : IngestState}
    (h : completeSegment segment offset records s = .ok (s', ())) :
    s'.store.tables.consumed = s.store.tables.consumed.insert segment.key segment.record := by
  obtain ⟨store, hstore, rfl⟩ := completeSegment_eq_ok h
  simp only [Store.completeSpoolSegment] at hstore
  split at hstore
  · rename_i hrecorded
    cases hstore
    rw [hrecorded]
    rfl
  · exact nomatch hstore

/-- Every durable state of a segment's ingest resumes to the rest of it, or is past its marker. -/
theorem commitRest_resumes {env : IngestEnv} {segment : Segment} {already records : Nat}
    {s t : IngestState} {pre post : List IngestState} (hle : already ≤ segment.content.length)
    (lines : List (Nat × List UInt8))
    (hlines : linesFrom already [] (segment.content.drop already) = lines)
    (htrail : (commitRest env segment (durableOffset already lines) records (batchesFrom [] lines)
      s).writes = pre ++ t :: post) :
    let o := commitRest env segment (durableOffset already lines) records (batchesFrom [] lines) s
    (ingestFile env segment t = ⟨post, o.result⟩ ∧
        t.store.tables.consumed = s.store.tables.consumed) ∨
      (post = [] ∧ o.result = .ok () ∧
        t.store.tables.consumed = s.store.tables.consumed.insert segment.key segment.record) := by
  generalize hbs : batchesFrom [] lines = bs at htrail
  -- induction on the batches left; each step moves the cursor to the end of one of them
  induction bs generalizing already records s pre lines with
  | nil =>
    obtain ⟨-, rfl⟩ := batchesFrom_eq_nil hbs
    right
    rw [commitRest_nil, durableOffset_nil] at *
    cases hc : completeSegment segment already records s with
    | error e => simp [Program.attempt, hc] at htrail
    | ok p =>
      obtain ⟨s', ⟨⟩⟩ := p
      simp only [Program.attempt, hc] at htrail ⊢
      cases pre with
      | nil =>
        simp only [List.nil_append, List.cons.injEq] at htrail
        obtain ⟨rfl, rfl⟩ := htrail
        exact ⟨rfl, trivial, completeSegment_consumed hc⟩
      | cons p pre => simp at htrail
  | cons b bs ih =>
    obtain ⟨rest, hrest, hne, hbs'⟩ := batchesFrom_cons hbs
    rw [List.nil_append] at hrest
    obtain ⟨hle', hrestLines⟩ := linesFrom_suffix hle (hlines.trans hrest)
    rw [commitRest_cons] at htrail ⊢
    cases hc : commitBatch env segment.lane segment.key records b s with
    | error e => simp [Program.attempt_bind_error hc] at htrail
    | ok p =>
      obtain ⟨s', facts⟩ := p
      obtain ⟨hconsumed, hcursor⟩ := commitBatch_progress hc
      rw [batchEnd_eq hne already] at hcursor
      have hoffset : durableOffset already lines =
          durableOffset (durableOffset already b) rest := by
        rw [hrest, durableOffset_append]
      rw [Program.attempt_bind_ok hc] at htrail ⊢
      cases pre with
      | nil =>
        simp only [List.nil_append, List.cons.injEq] at htrail
        obtain ⟨rfl, rfl⟩ := htrail
        left
        refine ⟨?_, hconsumed⟩
        rw [ingestFile_of_cursor hcursor hle', hrestLines, hoffset, hbs']
      | cons p pre =>
        simp only [List.cons_append, List.cons.injEq] at htrail
        obtain ⟨rfl, htrail⟩ := htrail
        rw [hoffset] at htrail ⊢
        have := ih hle' rest hrestLines hbs'.symm htrail
        rw [hconsumed] at this
        exact this

/-- Ingest that returns has recorded its segment. -/
theorem commitRest_ok {env : IngestEnv} {segment : Segment} {offset records : Nat}
    {batches : List (List (Nat × List UInt8))} {s : IngestState}
    (h : (commitRest env segment offset records batches s).result = .ok ()) :
    ((commitRest env segment offset records batches s).final s).store.tables.consumed =
      s.store.tables.consumed.insert segment.key segment.record := by
  induction batches generalizing records s with
  | nil =>
    rw [commitRest_nil] at h ⊢
    cases hc : completeSegment segment offset records s with
    | error e => simp [Program.attempt, hc] at h
    | ok p =>
      obtain ⟨s', ⟨⟩⟩ := p
      simp only [Program.attempt, hc, Outcome.final, List.getLast?_singleton, Option.getD_some]
      exact completeSegment_consumed hc
  | cons b bs ih =>
    rw [commitRest_cons] at h ⊢
    cases hc : commitBatch env segment.lane segment.key records b s with
    | error e => simp [Program.attempt_bind_error hc] at h
    | ok p =>
      obtain ⟨s', facts⟩ := p
      rw [Program.attempt_bind_ok hc] at h ⊢
      have hfinal := ih h
      rw [(commitBatch_progress hc).1] at hfinal
      rw [Outcome.final, List.getLast?_cons, Option.getD_some]
      exact hfinal

/-- `ingest_file` from any of its own durable states is the rest of itself. -/
theorem ingestFile_resumes {env : IngestEnv} {segment : Segment} {s t : IngestState}
    {pre post : List IngestState}
    (htrail : (ingestFile env segment s).writes = pre ++ t :: post) :
    (ingestFile env segment t = ⟨post, (ingestFile env segment s).result⟩ ∧
        t.store.tables.consumed = s.store.tables.consumed) ∨
      (post = [] ∧ (ingestFile env segment s).result = .ok () ∧
        t.store.tables.consumed = s.store.tables.consumed.insert segment.key segment.record) := by
  rcases ingestFile_apply env segment s with ⟨e, hfail⟩ | ⟨already, records, hle, -, hrest⟩
  · simp [hfail] at htrail
  · rw [hrest] at htrail ⊢
    exact commitRest_resumes hle _ rfl htrail

theorem ingestFile_ok {env : IngestEnv} {segment : Segment} {s : IngestState}
    (h : (ingestFile env segment s).result = .ok ()) :
    ((ingestFile env segment s).final s).store.tables.consumed =
      s.store.tables.consumed.insert segment.key segment.record := by
  rcases ingestFile_apply env segment s with ⟨e, hfail⟩ | ⟨already, records, -, -, hrest⟩
  · simp [hfail] at h
  · rw [hrest] at h ⊢
    exact commitRest_ok h

/-! ## The consumed index -/

theorem require_eq_ok {condition : Bool} {message : String} :
    require condition message = .ok () ↔ condition = true := by
  cases condition <;> simp [require]

/-- A check in front of a computation. -/
theorem require_bind_eq_ok {α : Type} {condition : Bool} {message : String}
    {f : Unit → Except String α} {a : α} :
    (require condition message >>= f) = .ok a ↔ condition = true ∧ f () = .ok a := by
  rw [Except.bind_eq_ok]
  constructor
  · rintro ⟨⟨⟩, hc, hf⟩
    exact ⟨require_eq_ok.mp hc, hf⟩
  · rintro ⟨hc, hf⟩
    exact ⟨(), require_eq_ok.mpr hc, hf⟩

theorem remember_eq_ok {index index' : ConsumedIndex} {path sha256 : String} :
    index.remember path sha256 = .ok index' ↔
      (validRelativePath path = true ∧ validSha256 sha256 = true ∧
        ∀ old ∈ index[path]?, old = sha256) ∧ index' = index.insert path sha256 := by
  unfold ConsumedIndex.remember
  rw [require_bind_eq_ok, require_bind_eq_ok, require_bind_eq_ok]
  simp only [Option.all_eq_true, decide_eq_true_eq, Except.pure_eq_ok, Except.ok.injEq, and_assoc,
    Option.mem_def, eq_comm (b := index')]

/-- What `open` makes of the segments a database records. -/
def Store.seedIndex (s : Store) (index : ConsumedIndex) : Except String ConsumedIndex :=
  s.consumedSegments.foldlM (fun index s => index.remember s.spoolFile s.sourceSha256) index

/-- Remembering distinct paths checks each against the index before any of them. -/
theorem foldlM_remember {γ : Type} {path sha256 : γ → String} {l : List γ}
    {index index' : ConsumedIndex} (hl : l.Pairwise fun a b => path a ≠ path b) :
    l.foldlM (fun index c => index.remember (path c) (sha256 c)) index = .ok index' ↔
      (∀ c ∈ l, validRelativePath (path c) = true ∧ validSha256 (sha256 c) = true ∧
        ∀ old ∈ index[path c]?, old = sha256 c) ∧
      index' = l.foldl (fun m c => m.insert (path c) (sha256 c)) index := by
  induction l generalizing index with
  | nil =>
    simp only [List.foldlM_nil, Except.pure_eq_ok, Except.ok.injEq, List.foldl_nil,
      List.not_mem_nil, false_implies, implies_true, true_and]
    exact eq_comm
  | cons c l ih =>
    obtain ⟨hc, hl⟩ := List.pairwise_cons.mp hl
    rw [List.foldlM_cons_eq_ok, List.forall_mem_cons]
    have hother : ∀ q ∈ l, (index.insert (path c) (sha256 c))[path q]? = index[path q]? := by
      intro q hq
      rw [Std.ExtTreeMap.getElem?_insert]
      simp [hc q hq]
    constructor
    · rintro ⟨index₁, hremember, hrest⟩
      obtain ⟨hvalid, rfl⟩ := remember_eq_ok.mp hremember
      obtain ⟨hall, rfl⟩ := (ih hl).mp hrest
      refine ⟨⟨hvalid, ?_⟩, rfl⟩
      intro q hq
      rw [← hother q hq]
      exact hall q hq
    · rintro ⟨⟨hvalid, hall⟩, rfl⟩
      refine ⟨_, remember_eq_ok.mpr ⟨hvalid, rfl⟩, (ih hl).mpr ⟨?_, rfl⟩⟩
      intro q hq
      rw [hother q hq]
      exact hall q hq

/-- A consumed segment is filed under its own path. -/
def Store.Filed (s : Store) : Prop :=
  ∀ (k : String) (row : ConsumedSegment), s.tables.consumed[k]? = some row → row.spoolFile = k

theorem Store.Filed.distinct {s : Store} (h : s.Filed) :
    s.consumedSegments.Pairwise fun a b => a.spoolFile ≠ b.spoolFile := by
  unfold Store.consumedSegments
  rw [List.pairwise_map]
  have hmem : ∀ a ∈ s.tables.consumed.toList, a.2.spoolFile = a.1 := fun a ha =>
    h a.1 a.2 (Std.ExtTreeMap.mem_toList_iff_getElem?_eq_some.mp ha)
  refine List.Pairwise.imp_of_mem ?_ s.tables.consumed.distinct_keys_toList
  intro a b ha hb hab
  rw [hmem a ha, hmem b hb]
  exact fun heq => hab (by simp [heq])

theorem Store.Filed.commitBatch {env : IngestEnv} {lane key : String} {records : Nat}
    {batch : List (Nat × List UInt8)} {s s' : IngestState} {facts : List ContinuityFact}
    (hs : s.store.Filed) (h : commitBatch env lane key records batch s = .ok (s', facts)) :
    s'.store.Filed := by
  unfold Store.Filed
  rw [(commitBatch_progress h).1]
  exact hs

theorem Store.Filed.completeSegment {segment : Segment} {offset records : Nat}
    {s s' : IngestState} (hs : s.store.Filed)
    (h : completeSegment segment offset records s = .ok (s', ())) : s'.store.Filed := by
  intro k row hrow
  rw [completeSegment_consumed h, Std.ExtTreeMap.getElem?_insert] at hrow
  split at hrow
  · rename_i hk
    cases hrow
    exact Std.LawfulEqCmp.eq_of_compare hk
  · exact hs k row hrow

/-- The index of an open partition: what the receipts hold, and what the database records. -/
structure Seeded (index₀ index : ConsumedIndex) (s : Store) : Prop where
  filed : s.Filed
  valid : ∀ (k : String) (row : ConsumedSegment), s.tables.consumed[k]? = some row →
    validRelativePath k = true ∧ validSha256 row.sourceSha256 = true ∧
      ∀ old ∈ index₀[k]?, old = row.sourceSha256
  get : ∀ k : String, index[k]? =
    (s.tables.consumed[k]?.map (·.sourceSha256)).or index₀[k]?

/-- Remembering every recorded segment once, in any order, seeds the index. -/
theorem remembered_iff {γ : Type} {path sha256 : γ → String} {l : List γ}
    {index₀ index : ConsumedIndex} {s : Store} (h : s.Filed)
    (hl : l.Pairwise fun a b => path a ≠ path b)
    (hmem : ∀ c ∈ l, (s.tables.consumed[path c]?).map (·.sourceSha256) = some (sha256 c))
    (hall : ∀ (k : String) (row : ConsumedSegment), s.tables.consumed[k]? = some row →
      ∃ c ∈ l, path c = k) :
    l.foldlM (fun index c => index.remember (path c) (sha256 c)) index₀ = .ok index ↔
      Seeded index₀ index s := by
  have hfold : ∀ k : String, (l.foldl (fun m c => m.insert (path c) (sha256 c)) index₀)[k]? =
      (s.tables.consumed[k]?.map (·.sourceSha256)).or index₀[k]? := by
    intro k
    cases hk : s.tables.consumed[k]? with
    | none =>
      rw [Std.ExtTreeMap.getElem?_foldl_insert_of_notMem]
      · rfl
      · rintro c hc rfl
        simpa [hk] using hmem c hc
    | some row =>
      obtain ⟨c, hc, rfl⟩ := hall k row hk
      rw [Std.ExtTreeMap.getElem?_foldl_insert_of_mem hl hc, ← hk, hmem c hc]
      rfl
  rw [foldlM_remember hl]
  constructor
  · rintro ⟨hvalid, rfl⟩
    refine ⟨h, ?_, hfold⟩
    intro k row hk
    obtain ⟨c, hc, rfl⟩ := hall k row hk
    have hsha := hmem c hc
    rw [hk, Option.map_some, Option.some.injEq] at hsha
    rw [hsha]
    exact hvalid c hc
  · rintro ⟨-, hvalid, hget⟩
    constructor
    · intro c hc
      obtain ⟨row, hrow, hsha⟩ := Option.map_eq_some_iff.mp (hmem c hc)
      rw [← hsha]
      exact hvalid _ row hrow
    · apply Std.ExtTreeMap.ext_getElem?
      intro k
      rw [hget, hfold]

theorem Store.Filed.mem {s : Store} (h : s.Filed) {row : ConsumedSegment} :
    row ∈ s.consumedSegments ↔ s.tables.consumed[row.spoolFile]? = some row := by
  unfold Store.consumedSegments
  rw [List.mem_map]
  constructor
  · rintro ⟨⟨k, row'⟩, hk, rfl⟩
    have hget := Std.ExtTreeMap.mem_toList_iff_getElem?_eq_some.mp hk
    rw [show row'.spoolFile = k from h k row' hget]
    exact hget
  · intro hget
    exact ⟨_, Std.ExtTreeMap.mem_toList_iff_getElem?_eq_some.mpr hget, rfl⟩

theorem seeded_iff {index₀ index : ConsumedIndex} {s : Store} (h : s.Filed) :
    s.seedIndex index₀ = .ok index ↔ Seeded index₀ index s := by
  apply remembered_iff h h.distinct
  · intro row hrow
    rw [h.mem.mp hrow]
    rfl
  · intro k row hk
    have hkey := h k row hk
    exact ⟨row, h.mem.mpr (by rw [hkey]; exact hk), hkey⟩

namespace Seeded

variable {index₀ index : ConsumedIndex} {s s' : Store}

theorem of_consumed (h : Seeded index₀ index s) (hs : s'.tables.consumed = s.tables.consumed) :
    Seeded index₀ index s' := by
  obtain ⟨hfiled, hvalid, hget⟩ := h
  unfold Store.Filed at hfiled
  rw [← hs] at hfiled hvalid hget
  exact ⟨hfiled, hvalid, hget⟩

/-- Recording a segment that the index does not know. -/
theorem record (h : Seeded index₀ index s) (segment : Segment)
    (hs : s'.tables.consumed = s.tables.consumed.insert segment.key segment.record)
    (hpath : validRelativePath segment.key = true) (hsha : validSha256 segment.sha256 = true)
    (hnew : index[segment.key]? = none) :
    Seeded index₀ (index.insert segment.key segment.sha256) s' := by
  have hnew₀ : index₀[segment.key]? = none := by
    have := h.get segment.key
    rw [hnew] at this
    exact (Option.or_eq_none_iff.mp this.symm).2
  constructor
  · intro k row hrow
    rw [hs, Std.ExtTreeMap.getElem?_insert] at hrow
    split at hrow
    · rename_i hk
      cases hrow
      exact Std.LawfulEqCmp.eq_of_compare hk
    · exact h.filed k row hrow
  · intro k row hrow
    rw [hs, Std.ExtTreeMap.getElem?_insert] at hrow
    split at hrow
    · rename_i hk
      cases hrow
      rw [← Std.LawfulEqCmp.eq_of_compare hk]
      exact ⟨hpath, hsha, by simp [hnew₀]⟩
    · exact h.valid k row hrow
  · intro k
    rw [hs, Std.ExtTreeMap.getElem?_insert, Std.ExtTreeMap.getElem?_insert]
    split
    · rfl
    · exact h.get k

end Seeded

/-! ## Segments in turn -/

theorem asIngestError_eq_ok {α : Type} {x : Except String α} {a : α} :
    asIngestError x = .ok a ↔ x = .ok a := by
  cases x <;> simp [asIngestError]

theorem consumed_eq_ok_true {index : ConsumedIndex} {path sha256 : String} :
    index.consumed path sha256 = .ok true ↔ index[path]? = some sha256 := by
  unfold ConsumedIndex.consumed
  cases index[path]? with
  | none => simp
  | some expected => by_cases h : expected = sha256 <;> simp [h]

theorem consumed_eq_ok_false {index : ConsumedIndex} {path sha256 : String} :
    index.consumed path sha256 = .ok false ↔ index[path]? = none := by
  unfold ConsumedIndex.consumed
  cases index[path]? with
  | none => simp
  | some expected => by_cases h : expected = sha256 <;> simp [h]

/-- A check that passes is no step. -/
theorem lift_ok_bind {α β : Type} {x : Except IngestError α} {a : α} (h : x = .ok a)
    (f : α → Program IngestState IngestError β) : Program.lift x >>= f = f a := by
  funext s
  exact Program.bind_apply_nil (by simp [h])

/-- A segment the index knows is skipped. -/
theorem visitSegment_done {env : RunEnv} {index : ConsumedIndex} {f : SealedSegment}
    (hpath : validRelativePath f.key = true) (hdone : index[f.key]? = some f.declared.sha256) :
    visitSegment env index f = pure index := by
  unfold visitSegment
  rw [lift_ok_bind (asIngestError_eq_ok.mpr (require_eq_ok.mpr hpath)),
    lift_ok_bind (asIngestError_eq_ok.mpr (consumed_eq_ok_true.mpr hdone))]
  rfl

/-- A segment the index does not know is ingested, and then remembered. -/
theorem visitSegment_new {env : RunEnv} {index : ConsumedIndex} {f : SealedSegment}
    (hpath : validRelativePath f.key = true) (hnew : index[f.key]? = none)
    (hvalid : f.validate env = .ok ()) (hsha : validSha256 f.declared.sha256 = true) :
    visitSegment env index f = ingestFile env.toIngestEnv f.toSegment >>= fun _ =>
      pure (index.insert f.key f.declared.sha256) := by
  have hremember : index.remember f.key f.declared.sha256 =
      .ok (index.insert f.key f.declared.sha256) :=
    remember_eq_ok.mpr ⟨⟨hpath, hsha, by simp [hnew]⟩, rfl⟩
  unfold visitSegment
  rw [lift_ok_bind (asIngestError_eq_ok.mpr (require_eq_ok.mpr hpath)),
    lift_ok_bind (asIngestError_eq_ok.mpr (consumed_eq_ok_false.mpr hnew))]
  simp only [Bool.false_eq_true, if_false]
  rw [lift_ok_bind hvalid, hremember]
  rfl

/-- A check that fails is the end. -/
theorem lift_error_bind {α β : Type} {x : Except IngestError α} {e : IngestError}
    (h : x = .error e) (f : α → Program IngestState IngestError β) (s : IngestState) :
    (Program.lift x >>= f) s = ⟨[], .error e⟩ :=
  Program.bind_apply_error (by simp [h])

/-- What a discovered segment can lead to: an error before any write, a skip, or its ingest. -/
theorem visitSegment_cases (env : RunEnv) (index : ConsumedIndex) (f : SealedSegment)
    (s : IngestState) :
    (∃ e, visitSegment env index f s = ⟨[], .error e⟩) ∨
      (validRelativePath f.key = true ∧ index[f.key]? = some f.declared.sha256) ∨
      (validRelativePath f.key = true ∧ index[f.key]? = none ∧ f.validate env = .ok ()) := by
  unfold visitSegment
  cases hpath : asIngestError (require (validRelativePath f.key)
      ("invalid consumed segment path \"" ++ f.key ++ "\"")) with
  | error e => exact .inl ⟨e, lift_error_bind rfl _ s⟩
  | ok _ =>
    rw [lift_ok_bind rfl]
    have hpath := require_eq_ok.mp (asIngestError_eq_ok.mp hpath)
    cases hdone : asIngestError (index.consumed f.key f.declared.sha256) with
    | error e => exact .inl ⟨e, lift_error_bind rfl _ s⟩
    | ok done =>
      rw [lift_ok_bind rfl]
      rw [asIngestError_eq_ok] at hdone
      cases done with
      | true => exact .inr (.inl ⟨hpath, consumed_eq_ok_true.mp hdone⟩)
      | false =>
        simp only [Bool.false_eq_true, if_false]
        cases hvalid : f.validate env with
        | error e => exact .inl ⟨e, lift_error_bind rfl _ s⟩
        | ok _ => exact .inr (.inr ⟨hpath, consumed_eq_ok_false.mp hdone, rfl⟩)

/-- A validated segment has the digest of its bytes. -/
theorem validate_sha256 {env : RunEnv} {f : SealedSegment} (h : f.validate env = .ok ()) :
    f.declared.sha256 = env.dataDigest f.content := by
  unfold SealedSegment.validate at h
  split at h
  · rename_i hvalid
    exact (Segments.validateSealedSegment_data hvalid).2.1.symm
  · exact nomatch h
  · exact nomatch h

/-- Every durable state of a run over segments resumes to the rest of the run, from the index its
    own database gives. -/
theorem visitSegments_resumes {env : RunEnv}
    (hdigest : ∀ content, validSha256 (env.dataDigest content) = true) {index₀ : ConsumedIndex}
    (files : List SealedSegment) {index : ConsumedIndex} {s t : IngestState}
    {pre post : List IngestState} (hs : Seeded index₀ index s.store)
    (htrail : (visitSegments env index files s).writes = pre ++ t :: post) :
    ∃ index', Seeded index₀ index' t.store ∧ (∀ k v : String, index[k]? = some v → index'[k]? = some v) ∧
      visitSegments env index' files t = ⟨post, (visitSegments env index files s).result⟩ := by
  induction files generalizing index s pre with
  | nil =>
    have hnil : (visitSegments env index [] s).writes = [] := rfl
    simp [hnil] at htrail
  | cons f files ih =>
    have hskip : ∀ {index' : ConsumedIndex}, validRelativePath f.key = true →
        index'[f.key]? = some f.declared.sha256 →
          visitSegments env index' (f :: files) = visitSegments env index' files := by
      intro index' hpath hdone
      rw [visitSegments, visitSegment_done hpath hdone]
      funext u
      exact Program.bind_apply_nil rfl
    rcases visitSegment_cases env index f s with ⟨e, herror⟩ | ⟨hpath, hdone⟩ |
      ⟨hpath, hnew, hvalid⟩
    · rw [visitSegments, Program.bind_apply_error herror] at htrail
      simp at htrail
    · rw [hskip hpath hdone] at htrail ⊢
      obtain ⟨index', hseeded, hgrown, hrun⟩ := ih hs htrail
      exact ⟨index', hseeded, hgrown, by rw [hskip hpath (hgrown _ _ hdone), hrun]⟩
    · have hsha : validSha256 f.declared.sha256 = true := by
        rw [validate_sha256 hvalid]
        exact hdigest f.content
      have hrun : visitSegments env index (f :: files) =
          ingestFile env.toIngestEnv f.toSegment >>= fun _ =>
            visitSegments env (index.insert f.key f.declared.sha256) files := by
        rw [visitSegments, visitSegment_new hpath hnew hvalid hsha, Program.bind_assoc]
        rfl
      have hgrown : ∀ k v : String, index[k]? = some v →
          (index.insert f.key f.declared.sha256)[k]? = some v := by
        intro k v hk
        rw [Std.ExtTreeMap.getElem?_insert, if_neg]
        · exact hk
        · intro heq
          rw [← Std.LawfulEqCmp.eq_of_compare heq, hnew] at hk
          exact nomatch hk
      rw [hrun] at htrail ⊢
      generalize ho : ingestFile env.toIngestEnv f.toSegment s = o
      obtain ⟨ws, result⟩ := o
      cases result with
      | error e =>
        rw [Program.bind_apply_error ho] at htrail ⊢
        rcases ingestFile_resumes (by rw [ho]; exact htrail) with ⟨hresume, hsame⟩ |
          ⟨-, hok, -⟩
        · refine ⟨index, hs.of_consumed hsame, fun _ _ hk => hk, ?_⟩
          rw [ho] at hresume
          rw [hrun, Program.bind_apply_error hresume]
        · rw [ho] at hok
          exact nomatch hok
      | ok _ =>
        have hfinal : (ws.getLast?.getD s).store.tables.consumed =
            s.store.tables.consumed.insert f.key f.toSegment.record := by
          have hok := @ingestFile_ok env.toIngestEnv f.toSegment s (by rw [ho])
          rwa [ho] at hok
        rw [Program.bind_apply_ok ho] at htrail ⊢
        generalize hu : ws.getLast?.getD s = u at htrail hfinal ⊢
        have hseeded : Seeded index₀ (index.insert f.key f.declared.sha256) u.store :=
          hs.record f.toSegment hfinal hpath hsha hnew
        rcases List.append_eq_append_cons htrail with ⟨mid, -, hpost⟩ | ⟨mid, hws, rfl⟩
        · -- the crash is past this segment, which the rebuilt index skips
          obtain ⟨index', hseeded', hgrown', hresume⟩ := ih hseeded hpost
          refine ⟨index', hseeded', fun k v hk => hgrown' k v (hgrown k v hk), ?_⟩
          have hdone : index'[f.key]? = some f.declared.sha256 := by
            apply hgrown'
            simp
          rw [hskip hpath hdone, hresume]
        · rcases ingestFile_resumes (by rw [ho]; exact hws) with ⟨hresume, hsame⟩ |
            ⟨rfl, -, hdone⟩
          · -- the crash is between two batches of this segment
            refine ⟨index, hs.of_consumed hsame, fun _ _ hk => hk, ?_⟩
            rw [ho] at hresume
            rw [hrun, Program.bind_apply_ok hresume, ← hu, hws, Program.getLast?_append_getD,
              List.getLast?_cons, Option.getD_some]
          · -- the crash is between the marker and the index in memory
            have ht : u = t := by
              rw [← hu, hws]
              simp
            subst ht
            refine ⟨_, hseeded, hgrown, ?_⟩
            rw [hskip hpath (by simp)]
            rfl

/-! ## What every transaction keeps -/

section Keeps

variable {P : IngestState → Prop} {s : IngestState}

/-- What every batch and the marker keep, the ingest of a segment keeps. -/
theorem ingestFile_keeps {env : IngestEnv} {segment : Segment}
    (hbatch : ∀ {records batch s s' facts}, P s →
      commitBatch env segment.lane segment.key records batch s = .ok (s', facts) → P s')
    (hmarker : ∀ {offset records s s'}, P s →
      completeSegment segment offset records s = .ok (s', ()) → P s') (hs : P s) :
    Program.Keeps P (fun _ => P) (ingestFile env segment) s := by
  have hrest : ∀ batches offset records s, P s →
      Program.Keeps P (fun _ => P) (commitRest env segment offset records batches) s := by
    intro batches offset
    induction batches with
    | nil =>
      intro records s hs
      rw [commitRest_nil]
      apply Program.Keeps.attempt
      rintro s' ⟨⟩ h
      exact ⟨hmarker hs h, hmarker hs h⟩
    | cons b bs ih =>
      intro records s hs
      rw [commitRest_cons]
      apply Program.Keeps.bind (Q := fun _ => P)
      · apply Program.Keeps.attempt
        intro s' facts h
        exact ⟨hbatch hs h, hbatch hs h⟩
      · intro facts s' hs'
        exact ih _ s' hs'
  unfold Program.Keeps
  rcases ingestFile_apply env segment s with ⟨e, hfail⟩ | ⟨already, records, -, -, heq⟩
  · rw [hfail]
    simp
  · rw [heq]
    exact hrest _ _ _ s hs

/-- What every batch and every marker keep, a run over segments keeps. -/
theorem visitSegments_keeps {env : RunEnv} (files : List SealedSegment)
    (hbatch : ∀ f ∈ files, ∀ {records batch s s' facts}, P s →
      commitBatch env.toIngestEnv f.lane f.key records batch s = .ok (s', facts) → P s')
    (hmarker : ∀ f ∈ files, ∀ {offset records s s'}, P s →
      completeSegment f.toSegment offset records s = .ok (s', ()) → P s')
    {index : ConsumedIndex} (hs : P s) :
    Program.Keeps P (fun _ => P) (visitSegments env index files) s := by
  induction files generalizing index s with
  | nil => exact Program.Keeps.pure hs
  | cons f files ih =>
    have hf : f ∈ f :: files := List.mem_cons_self
    apply Program.Keeps.bind (Q := fun _ => P)
    · unfold visitSegment
      apply Program.Keeps.bind (Q := fun _ => P) (Program.Keeps.lift fun _ _ => hs)
      intro _ s₁ hs₁
      apply Program.Keeps.bind (Q := fun _ => P) (Program.Keeps.lift fun _ _ => hs₁)
      intro done s₂ hs₂
      split
      · exact Program.Keeps.pure hs₂
      · apply Program.Keeps.bind (Q := fun _ => P) (Program.Keeps.lift fun _ _ => hs₂)
        intro _ s₃ hs₃
        apply Program.Keeps.bind (Q := fun _ => P) (ingestFile_keeps (hbatch f hf) (hmarker f hf) hs₃)
        intro _ s₄ hs₄
        exact Program.Keeps.lift fun _ _ => hs₄
    · intro index s' hs'
      apply ih _ _ hs'
      · exact fun g hg => hbatch g (List.mem_cons_of_mem f hg)
      · exact fun g hg => hmarker g (List.mem_cons_of_mem f hg)

end Keeps

end PredictionIndexer.Ingest
