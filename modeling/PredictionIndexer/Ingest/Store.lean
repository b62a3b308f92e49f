import PredictionIndexer.Continuity.Classifier

/-!
# The durable log

`ingester/crates/store/src/lib.rs`: evidence, facts, record identities, spool cursors and consumed
segments of one partition database. A table is an ordered map from its primary key to its row, and
a statement that breaks a constraint of the schema is an error that changes nothing. The schema is
version 3; the migrations from older versions are not modelled.

Hashes are SHA-256 of third-party code; `Hashes` holds the two the store computes.
-/

namespace PredictionIndexer.Ingest

open Continuity

/-- The domain-separated digests, in hexadecimal. -/
structure Hashes where
  /-- `EvidenceHash::hash` of an exact line. -/
  evidence : List UInt8 → String
  /-- `ContentHash::hash` of a decoded payload. -/
  content : List UInt8 → ContentHash
  /-- `FactHash::hash` of a fact's canonical bytes. -/
  fact : List UInt8 → String

/-! ## Rows -/

structure EvidenceRow where
  venue : String
  spoolFile : String
  byteOffset : Nat
  evidenceHash : String
  contentHash : String
  rawLine : List UInt8
deriving DecidableEq

structure FactRow where
  factHash : String
  canonical : List UInt8
deriving DecidableEq

/-- Where ingestion of one spool file has reached. -/
structure SpoolCursor where
  spoolFile : String
  venue : String
  bytesConsumed : Nat
  records : Nat
deriving DecidableEq

/-- One sealed segment fully consumed by this partition. -/
structure ConsumedSegment where
  spoolFile : String
  lane : String
  sourceSha256 : String
  byteLength : Nat
  lineCount : Nat
deriving DecidableEq

/-- The database. `facts` is keyed by the sequence of the evidence the fact is about, which is also
    its own. -/
structure Tables where
  /-- `meta.first_evidence_seq`. -/
  firstEvidenceSeq : Nat
  evidence : Std.ExtTreeMap Nat EvidenceRow := ∅
  facts : Std.ExtTreeMap Nat FactRow := ∅
  identity : Std.ExtTreeMap String IdentityEntry := ∅
  cursors : Std.ExtTreeMap String SpoolCursor := ∅
  consumed : Std.ExtTreeMap String ConsumedSegment := ∅

/-- `COALESCE(MAX(seq), 0)`. -/
def Tables.highest (t : Tables) : Nat := (t.evidence.toList.map (·.1)).foldl max 0

/-- `COALESCE(MIN(seq), 0)`. -/
def Tables.lowest (t : Tables) : Nat := ((t.evidence.toList.map (·.1)).min?).getD 0

inductive StoreError where
  /-- A statement SQLite refused. -/
  | sqlite (message : String)
  | corruptSequence
  | factHashMismatch (seq : Nat)
  | decoding (seq : Nat) (detail : String)
  | consumedSegmentConflict (spoolFile : String)
  | partitionSequenceMismatch (expected found : Nat)
deriving DecidableEq

/-- `Display`. -/
def StoreError.text : StoreError → String
  | sqlite message => "sqlite: " ++ message
  | corruptSequence => "non-positive sequence in the store"
  | factHashMismatch seq => "fact " ++ toString seq ++ " does not match its committed hash"
  | decoding seq detail => "fact " ++ toString seq ++ " could not be decoded: " ++ detail
  | consumedSegmentConflict spoolFile =>
    "consumed segment \"" ++ spoolFile ++ "\" changed identity"
  | partitionSequenceMismatch expected found =>
    "partition starts at global position " ++ toString found ++ "; its marker requires " ++
      toString expected

/-! ## The store -/

structure Store where
  tables : Tables
  firstEvidence : Nat
  nextEvidence : Nat

/-- Proof that an exact line is durable. -/
structure CapturedRecord where
  seq : EvidenceSeq
  evidenceHash : String
  contentHash : ContentHash
  rawLine : List UInt8
deriving DecidableEq

def CapturedRecord.position (c : CapturedRecord) : FactSeq := ⟨c.seq.get, c.seq.pos⟩

namespace Store

/-- What `open_internal` reads back from an existing database. -/
def attach (t : Tables) : Store where
  tables := t
  firstEvidence := t.firstEvidenceSeq
  nextEvidence := if t.highest = 0 then t.firstEvidenceSeq else t.highest + 1

/-- `open_internal`: a missing database is created, and a requested first position has to be the
    recorded one. -/
def openInternal (existing : Option Tables) (requestedFirst : Option Nat) :
    Except StoreError Store := do
  let t := existing.getD { firstEvidenceSeq := requestedFirst.getD 1 }
  if t.firstEvidenceSeq = 0 then .error .corruptSequence
  else match requestedFirst with
    | none => .ok (attach t)
    | some expected =>
      if expected ≠ t.firstEvidenceSeq then
        .error (.partitionSequenceMismatch expected t.firstEvidenceSeq)
      else .ok (attach t)

/-- `open_partition`. -/
def openPartition (existing : Option Tables) (firstSeq : Nat) : Except StoreError Store :=
  if firstSeq = 0 then .error .corruptSequence else openInternal existing (some firstSeq)

/-- `capture_raw`: makes one delivered line durable and assigns its global position. -/
def captureRaw (h : Hashes) (s : Store) (venue spoolFile : String) (byteOffset : Nat)
    (rawLine content : List UInt8) : Except StoreError (CapturedRecord × Store) :=
  if hpos : 0 < s.nextEvidence then
    let row : EvidenceRow := {
      venue, spoolFile, byteOffset, evidenceHash := h.evidence rawLine
      contentHash := (h.content content).toHex, rawLine }
    -- an offset that is negative as `i64` fails its CHECK, a used position the primary key
    if byteOffset ≥ 2 ^ 63 then .error (.sqlite "CHECK constraint failed: byte_offset >= 0")
    else if s.tables.evidence.contains s.nextEvidence then
      .error (.sqlite "UNIQUE constraint failed: evidence.seq")
    else .ok (⟨⟨s.nextEvidence, hpos⟩, h.evidence rawLine, h.content content, rawLine⟩, { s with
      tables := { s.tables with evidence := s.tables.evidence.insert s.nextEvidence row }
      nextEvidence := s.nextEvidence + 1 })
  else .error .corruptSequence

/-- `commit_fact`: commits one classification, as its canonical bytes, against a captured line. -/
def commitFact (h : Hashes) (s : Store) (captured : CapturedRecord) (canonical : List UInt8) :
    Except StoreError (FactSeq × Store) :=
  let seq := captured.seq.get
  if s.tables.facts.contains seq then .error (.sqlite "UNIQUE constraint failed: facts.seq")
  else if !s.tables.evidence.contains seq then
    .error (.sqlite "FOREIGN KEY constraint failed")
  else .ok (captured.position, { s with
    tables := { s.tables with facts := s.tables.facts.insert seq ⟨h.fact canonical, canonical⟩ } })

/-- `record_identity`: the first content committed for a record id. -/
def recordIdentity (s : Store) (recordId : String) : Option IdentityEntry :=
  s.tables.identity[recordId]?

/-- `remember_record_identity`: an `INSERT`, which the primary key refuses a second time. -/
def rememberRecordIdentity (s : Store) (recordId : String) (content : ContentHash)
    (firstSeen : FactSeq) : Except StoreError Store :=
  if s.tables.identity.contains recordId then
    .error (.sqlite "UNIQUE constraint failed: record_identity.record_id")
  else .ok { s with
    tables := { s.tables with
      identity := s.tables.identity.insert recordId ⟨content, firstSeen⟩ } }

/-! ## Spool cursors -/

/-- SQLite's `LIKE`: `%` is any run, `_` any character, letters compare without case. -/
def like : List Char → List Char → Bool
  | [], text => text.isEmpty
  | '%' :: pattern, text => text.tails.any (like pattern)
  | _ :: _, [] => false
  | p :: pattern, c :: text => (p = '_' || p.toLower = c.toLower) && like pattern text

/-- `Path::file_name` of a relative segment path. -/
def fileName (path : String) : List Char :=
  (path.toList.reverse.takeWhile (· ≠ '/')).reverse

/-- `spool_cursor`: the exact key, else the furthest cursor of the same file name. -/
def spoolCursor (s : Store) (spoolFile : String) : Option SpoolCursor :=
  match s.tables.cursors[spoolFile]? with
  | some cursor => some cursor
  | none =>
    let pattern := '%' :: '/' :: fileName spoolFile
    let rows := (s.tables.cursors.toList.map (·.2)).filter fun c =>
      like pattern c.spoolFile.toList
    rows.foldl (fun best c => match best with
      | none => some c
      | some b => if b.bytesConsumed < c.bytesConsumed then some c else some b) none

def advanceSpoolCursor (s : Store) (spoolFile venue : String) (bytesConsumed records : Nat) :
    Store :=
  { s with tables := { s.tables with
      cursors := s.tables.cursors.insert spoolFile (match s.tables.cursors[spoolFile]? with
        | some c => { c with bytesConsumed, records }
        | none => ⟨spoolFile, venue, bytesConsumed, records⟩) } }

/-- `complete_spool_segment`: the first record of a path stays, and has to be this one. -/
def completeSpoolSegment (s : Store) (segment : ConsumedSegment) : Except StoreError Store :=
  let recorded := (s.tables.consumed[segment.spoolFile]?).getD segment
  if recorded = segment then
    .ok { s with tables := { s.tables with
      consumed := s.tables.consumed.insert segment.spoolFile recorded } }
  else .error (.consumedSegmentConflict segment.spoolFile)

def consumedSegments (s : Store) : List ConsumedSegment :=
  s.tables.consumed.toList.map (·.2)

/-! ## Transactions -/

/-- `transaction`: runs `work` between `BEGIN IMMEDIATE` and its end. `commit` is what `COMMIT`
    itself reports; SQLite has rolled the rows back when it fails. -/
def transaction {ε α : Type} (s : Store) (work : Store → Except ε α × Store)
    (commit : Except ε Unit) : Except ε α × Store :=
  match work s with
  | (.ok value, s') =>
    match commit with
    | .ok () => (.ok value, s')
    -- the `?` returns here: the rows are gone, the counter stays where it is
    | .error e => (.error e, { s' with tables := s.tables })
  | (.error e, s') =>
    -- the counter walks back with the rows
    (.error e, { s' with tables := s.tables, nextEvidence := s.nextEvidence })

/-! ## Reads -/

def evidenceCount (s : Store) : Nat := s.tables.evidence.size

def factCount (s : Store) : Nat := s.tables.facts.size

structure IntegrityReport where
  checked : Nat
  mismatches : List Nat
  dense : Bool
deriving DecidableEq

def IntegrityReport.isClean (r : IntegrityReport) : Bool := r.mismatches.isEmpty && r.dense

/-- `check_integrity`: re-hashes every stored line, and checks that the positions are dense from
    the partition's first. -/
def checkIntegrity (h : Hashes) (s : Store) : IntegrityReport :=
  let rows := s.tables.evidence.toList
  let checked := rows.length
  { checked
    mismatches := rows.filterMap fun (seq, row) =>
      if h.evidence row.rawLine ≠ row.evidenceHash then some seq else none
    dense := if checked = 0 then true
      else decide (s.tables.lowest = s.firstEvidence) &&
        decide (s.tables.highest - s.tables.lowest + 1 = checked) }

/-- `recover_facts`: folds every durable fact in sequence order into caller-owned state, its digest
    checked first. -/
def recoverFacts {τ α : Type} (h : Hashes) (s : Store)
    (decode : FactSeq → List UInt8 → Except String τ) (apply : α → τ → α) (init : α) :
    Except StoreError α :=
  s.tables.facts.toList.foldlM (fun state (seq, row) =>
    match (Sequence.new seq : Option FactSeq) with
    | none => .error .corruptSequence
    | some position =>
      if h.fact row.canonical ≠ row.factHash then .error (.factHashMismatch seq)
      else match decode position row.canonical with
        | .error detail => .error (.decoding seq detail)
        | .ok value => .ok (apply state value)) init

end Store

end PredictionIndexer.Ingest
