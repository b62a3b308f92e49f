import PredictionIndexer.Continuity.Fact
import PredictionIndexer.ForStd.Durable
import PredictionIndexer.Ingest.Store

/-!
# Ingesting one segment

`ingester/crates/cli/src/main.rs` (`ingest_file`, `commit_batch`): the lines of a sealed segment
from the durable cursor on, in batches of one transaction each, and the transaction that marks the
segment consumed.

A file is its bytes. The tally and the texts of rejected lines only reach the report and are left
out. A `COMMIT` that fails ends the process, as a crash before it does.
-/

namespace PredictionIndexer.Ingest

open Continuity Durable Fallible

/-- What the build and the crates it links decide. -/
structure IngestEnv where
  json : SerdeJson
  factJson : FactJson
  hashes : Hashes
  mode : Arithmetic

/-- `ContentHash::hash(raw_payload.as_bytes())`. -/
def IngestEnv.contentHash (env : IngestEnv) (payload : String) : ContentHash :=
  env.hashes.content payload.utf8Bytes

inductive IngestError where
  | store (e : StoreError)
  | message (text : String)
  | panic
deriving DecidableEq

/-- `?` on a store call. -/
def storeCall {α : Type} : Except StoreError α → Except IngestError α
  | .ok a => .ok a
  | .error e => .error (.store e)

/-- The classifier stops only by a panic. -/
def classified {α : Type} : Except Halt α → Except IngestError α
  | .ok a => .ok a
  | .error _ => .error .panic

/-- Which continuity keys were observed in the active partition. -/
structure CarryTracker where
  connections : Std.ExtTreeSet ConnectionKey := ∅
  epochs : Std.ExtTreeSet EpochKey := ∅

namespace CarryTracker

def observe (t : CarryTracker) (key : EpochKey) : CarryTracker where
  connections := t.connections.insert ⟨key.lane.venue, key.epoch⟩
  epochs := t.epochs.insert key

/-- `observe_envelope`. -/
def observeEnvelope (t : CarryTracker) (view : EnvelopeView) : CarryTracker :=
  t.observe (Classifier.epochKey view)

/-- `observe_fact`. -/
def observeFact (t : CarryTracker) (fact : ContinuityFact) : CarryTracker := t.observe fact.key

end CarryTracker

/-- `IngestState`, and what an open partition owns of it. -/
structure IngestState where
  store : Store
  classifier : Classifier
  tracker : CarryTracker

/-! ## One line -/

/-- The verdict of the store's identity index. -/
def storeVerdict (s : Store) (recordId : String) (content : ContentHash) : IdentityVerdict :=
  match s.recordIdentity recordId with
  | none => .unseen
  | some original =>
    if original.content = content then .duplicate original.firstSeen
    else .conflict original.firstSeen original.content

/-- The first insert of an identity, in the transaction of its fact. -/
def rememberFirst (s : Store) (verdict : IdentityVerdict) (recordId : String)
    (content : ContentHash) (seq : FactSeq) : Except StoreError Store :=
  if verdict = .unseen then s.rememberRecordIdentity recordId content seq else .ok s

/-- The parsed half of a line: classified, committed as a fact, remembered, applied. -/
def commitView (env : IngestEnv) (s : IngestState) (captured : CapturedRecord)
    (view : EnvelopeView) : Except IngestError (IngestState × ContinuityFact) := do
  let tracker := s.tracker.observeEnvelope view
  let verdict := storeVerdict s.store view.recordId captured.contentHash
  let fact ← classified (s.classifier.classifyWithIdentity env.mode env.contentHash view
    captured.position verdict)
  let (seq, store) ← storeCall (s.store.commitFact env.hashes captured fact.canonicalBytes)
  let store ← storeCall (rememberFirst store verdict view.recordId captured.contentHash seq)
  return ({ store, tracker, classifier := s.classifier.apply fact }, fact)

/-- One line: its bytes are down before anything parses them, and a line that does not parse stays
    as evidence without a fact. -/
def commitLine (env : IngestEnv) (lane key : String) (s : IngestState)
    (entry : Nat × List UInt8) : Except IngestError (IngestState × Option ContinuityFact) :=
  match EnvelopeView.parse env.json entry.2 with
  | .error _ => do
    let (_, store) ← storeCall (s.store.captureRaw env.hashes lane key entry.1 entry.2 entry.2)
    return ({ s with store }, none)
  | .ok view => do
    let (captured, store) ← storeCall
      (s.store.captureRaw env.hashes lane key entry.1 entry.2 view.rawPayload.utf8Bytes)
    let (s, fact) ← commitView env { s with store } captured view
    return (s, some fact)

/-- The lines of a batch in turn, with the facts committed so far. -/
def commitLines (env : IngestEnv) (lane key : String) (s : IngestState) :
    List (Nat × List UInt8) → Except IngestError (IngestState × List ContinuityFact)
  | [] => .ok (s, [])
  | entry :: batch => do
    let (s, fact) ← commitLine env lane key s entry
    let (s, facts) ← commitLines env lane key s batch
    return (s, fact.toList ++ facts)

/-! ## One batch -/

/-- The offset past the last line of a batch. -/
def batchEnd (batch : List (Nat × List UInt8)) : Nat :=
  match batch.getLast? with
  | some (start, line) => start + line.length
  | none => 0

/-- `commit_batch`: one transaction over the lines, their facts and the cursor that covers them. -/
def commitBatch (env : IngestEnv) (lane key : String) (recordsBefore : Nat)
    (batch : List (Nat × List UInt8)) (s : IngestState) :
    Except IngestError (IngestState × List ContinuityFact) :=
  let work (store : Store) : Except IngestError (IngestState × List ContinuityFact) × Store :=
    match commitLines env lane key { s with store } batch with
    | .ok (s', facts) => (.ok (s', facts),
        s'.store.advanceSpoolCursor key lane (batchEnd batch) (recordsBefore + facts.length))
    | .error e => (.error e, store)
  match s.store.transaction work (.ok ()) with
  | (.ok (s', facts), store) => .ok ({ s' with store }, facts)
  | (.error e, _) => .error e

/-! ## One segment -/

/-- A sealed segment as `run` finds it: its lane, its path under the spool root, its bytes, and
    what its seal declares. -/
structure Segment where
  lane : String
  key : String
  content : List UInt8
  sha256 : String
  byteLength : Nat
  lineCount : Nat
deriving DecidableEq

/-- `BATCH`. -/
def batchSize : Nat := 512

/-- The complete lines from an offset on, each with its start; a final line without a newline is a
    torn write. `line` is the line read so far. -/
def linesFrom (start : Nat) (line : List UInt8) : List UInt8 → List (Nat × List UInt8)
  | [] => []
  | b :: bytes =>
    if b = 10 then (start, line ++ [b]) :: linesFrom (start + line.length + 1) [] bytes
    else linesFrom start (line ++ [b]) bytes

/-- The batches `ingest_file` hands to `commit_batch`. -/
def batchesFrom (batch : List (Nat × List UInt8)) :
    List (Nat × List UInt8) → List (List (Nat × List UInt8))
  | [] => if batch.isEmpty then [] else [batch]
  | entry :: lines =>
    if batch.length + 1 ≥ batchSize then (batch ++ [entry]) :: batchesFrom [] lines
    else batchesFrom (batch ++ [entry]) lines

/-- Every batch in its transaction; returns the records so far. -/
def commitBatches (env : IngestEnv) (lane key : String) (records : Nat) :
    List (List (Nat × List UInt8)) → Program IngestState IngestError Nat
  | [] => pure records
  | batch :: batches => do
    let facts ← .attempt (commitBatch env lane key records batch)
    commitBatches env lane key (records + facts.length) batches

/-- The last transaction: a cursor at the end, and the identity of the consumed segment. -/
def completeSegment (segment : Segment) (durableOffset records : Nat) (s : IngestState) :
    Except IngestError (IngestState × Unit) :=
  let work (store : Store) : Except IngestError Unit × Store :=
    let store := store.advanceSpoolCursor segment.key segment.lane durableOffset records
    match store.completeSpoolSegment ⟨segment.key, segment.lane, segment.sha256,
        segment.byteLength, segment.lineCount⟩ with
    | .ok store => (.ok (), store)
    | .error e => (.error (.store e), store)
  match s.store.transaction work (.ok ()) with
  | (.ok (), store) => .ok ({ s with store }, ())
  | (.error e, _) => .error e

/-- The offset past the last complete line. -/
def durableOffset (start : Nat) (lines : List (Nat × List UInt8)) : Nat :=
  match lines.getLast? with
  | some (start, line) => start + line.length
  | none => start

/-- `ingest_file`. -/
def ingestFile (env : IngestEnv) (segment : Segment) : Program IngestState IngestError Unit := do
  let s ← .read
  let cursor := s.store.spoolCursor segment.key
  let already := (cursor.map (·.bytesConsumed)).getD 0
  let records := (cursor.map (·.records)).getD 0
  if already > segment.content.length then
    .fail (.message ("durable cursor " ++ toString already ++
      " is beyond current file length " ++ toString segment.content.length))
  else do
    let lines := linesFrom already [] (segment.content.drop already)
    let records ← commitBatches env segment.lane segment.key records (batchesFrom [] lines)
    .attempt (completeSegment segment (durableOffset already lines) records)

end PredictionIndexer.Ingest
