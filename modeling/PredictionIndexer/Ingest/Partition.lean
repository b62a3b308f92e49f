import PredictionIndexer.Finalize.Date
import PredictionIndexer.Ingest.Batch

/-!
# Ingest partitions

`ingester/crates/cli/src/ingest_partition.rs`: one writable database per UTC day, the marker of the
active partition, and the receipts that close partitions into a chain.

The store root is a map from a date to the files of its partition directory. A JSON file is the
record it encodes, written by one atomic rename; paths in messages are relative to the root. The
legacy store beside the partitions is not modelled. What SQLite makes of the same rows as file
bytes is not a function of the rows, so `close` takes the length and digest of the file it closes.
-/

namespace PredictionIndexer.Ingest

open Continuity Durable Fallible Finalize

/-! ## Carry -/

structure ConnectionCarry where
  venue : String
  epoch : String
  localCounter : Nat
deriving DecidableEq

structure EpochCarry where
  venue : String
  stream : String
  epoch : String
  monotonicKey : Nat
deriving DecidableEq

/-- Classification-critical state crossing one UTC ingestion boundary. -/
structure IngestCarry where
  connections : List ConnectionCarry := []
  epochs : List EpochCarry := []
  duplicates : Nat := 0
  conflicts : Nat := 0
deriving DecidableEq

namespace IngestCarry

def restoreConnection (s : ClassifierState) (entry : ConnectionCarry) :
    Except String ClassifierState :=
  match Venue.fromWire entry.venue with
  | none => .error ("unknown carry venue \"" ++ entry.venue ++ "\"")
  | some venue =>
    let key : ConnectionKey := ⟨venue, entry.epoch⟩
    if s.connections.contains key then
      .error ("duplicate connection carry for " ++ entry.venue ++ "/\"" ++ entry.epoch ++ "\"")
    else .ok { s with connections := s.connections.insert key entry.localCounter }

def restoreEpoch (s : ClassifierState) (entry : EpochCarry) : Except String ClassifierState :=
  match Venue.fromWire entry.venue, Stream.fromWire entry.stream with
  | none, _ => .error ("unknown carry venue \"" ++ entry.venue ++ "\"")
  | _, none => .error ("unknown carry stream \"" ++ entry.stream ++ "\"")
  | some venue, some stream =>
    let key : EpochKey := ⟨⟨venue, stream⟩, entry.epoch⟩
    if s.epochs.contains key then
      .error ("duplicate epoch carry for " ++ entry.venue ++ "/" ++ entry.stream ++ "/\"" ++
        entry.epoch ++ "\"")
    else .ok { s with
      epochs := s.epochs.insert key { monotonicKey := some entry.monotonicKey } }

/-- `restore`. -/
def restore (c : IngestCarry) : Except String ClassifierState := do
  let s : ClassifierState := { duplicates := c.duplicates, conflicts := c.conflicts }
  let s ← c.connections.foldlM restoreConnection s
  c.epochs.foldlM restoreEpoch s

end IngestCarry

/-- `capture`: only what was observed in the closing partition is carried. -/
def CarryTracker.capture (t : CarryTracker) (s : ClassifierState) : IngestCarry where
  connections := t.connections.toList.filterMap fun key =>
    s.connections[key]?.map fun counter => ⟨key.venue.asStr, key.epoch, counter⟩
  epochs := t.epochs.toList.filterMap fun key =>
    (s.epochs[key]?.bind EpochState.monotonicKey).map fun monotonicKey =>
      ⟨key.lane.venue.asStr, key.lane.stream.asStr, key.epoch, monotonicKey⟩
  duplicates := s.duplicates
  conflicts := s.conflicts

/-! ## Records on disk -/

/-- `IDENTITY_SCOPE`. -/
def identityScope : String := "ingest_partition"

/-- `DATABASE_FILE`. -/
def databaseFile : String := "store.db"

/-- The marker of the partition that is being written. -/
structure ActivePartition where
  activeVersion : Nat := 1
  partitionDate : String
  openedAtNs : Nat
  firstFileOrderSeq : Nat
  parentReceiptSha256 : Option String
  initialCarry : IngestCarry
  identityScope : String := identityScope
deriving DecidableEq

structure SegmentRecord where
  path : String
  lane : String
  sourceSha256 : String
  byteLength : Nat
  lineCount : Nat
deriving DecidableEq

/-- The commit marker of a closed partition. -/
structure PartitionReceipt where
  version : Nat := 1
  partitionDate : String
  openedAtNs : Nat
  closedAtNs : Nat
  databaseFile : String := databaseFile
  databaseByteLength : Nat
  databaseSha256 : String
  firstFileOrderSeq : Nat
  lastFileOrderSeq : Option Nat
  evidenceRows : Nat
  factRows : Nat
  parentReceiptSha256 : Option String
  terminalCarry : IngestCarry
  identityScope : String := identityScope
  segments : List SegmentRecord
deriving DecidableEq

/-- A receipt and the SHA-256 of its encoding. -/
structure ReceiptRecord where
  digest : String
  receipt : PartitionReceipt
deriving DecidableEq

/-- The files of one partition directory. -/
structure PartitionDir where
  active : Option ActivePartition := none
  openDb : Option Tables := none
  closedDb : Option Tables := none
  receipt : Option PartitionReceipt := none

/-- The store root, by date. -/
abbrev Disk := Std.ExtTreeMap String PartitionDir

namespace Disk

/-- The files under a date; a directory that is not there has none. -/
def dir (d : Disk) (date : String) : PartitionDir := d[date]?.getD {}

/-- Changes the files under a date. -/
def update (d : Disk) (date : String) (f : PartitionDir → PartitionDir) : Disk :=
  d.insert date (f (d.dir date))

end Disk

/-! ## Validation -/

/-- `validate_sha256`. -/
def validSha256 (value : String) : Bool :=
  value.utf8Bytes.length = 64 &&
    value.toList.all fun c => c.isDigit || ('a' ≤ c && c ≤ 'f')

/-- The components of a relative path; repeated separators and inner `.` do not count. -/
def pathComponents (path : String) : List (List Char) :=
  match (path.toList.splitOn '/').filter (· ≠ []) with
  | [] => []
  | first :: rest => first :: rest.filter (· ≠ ['.'])

/-- `validate_relative_path`. -/
def validRelativePath (path : String) : Bool :=
  path ≠ "" && path.toList.head? ≠ some '/' &&
    (pathComponents path).all (fun c => c ≠ ['.'] && c ≠ ['.', '.'] && !c.contains '\\') &&
    ".ndjson".toList.isSuffixOf path.toList

def require (condition : Bool) (message : String) : Except String Unit :=
  if condition then .ok () else .error message

/-- `validate_active`. -/
def validateActive (date : String) (active : ActivePartition) : Except String Unit := do
  require (active.activeVersion = 1) ("date=" ++ date ++ " has unsupported active_version " ++
    toString active.activeVersion)
  require (date = active.partitionDate) ("date=" ++ date ++ " disagrees with partition_date " ++
    active.partitionDate)
  require (0 < active.firstFileOrderSeq && active.identityScope = identityScope)
    ("invalid active marker in date=" ++ date)
  require (active.parentReceiptSha256.all validSha256) "invalid lowercase sha256"
  let _ ← active.initialCarry.restore

/-- The last position the row counts of a receipt call for. -/
def PartitionReceipt.expectedLast (r : PartitionReceipt) : Option Nat :=
  if r.evidenceRows = 0 then none else some (r.firstFileOrderSeq + r.evidenceRows - 1)

/-- The segment records of a receipt are well formed, unique and sorted. -/
def validateSegments (date : String) (segments : List SegmentRecord) : Except String Unit := do
  segments.forM fun s => do
    require (validRelativePath s.path) ("invalid consumed segment path \"" ++ s.path ++ "\"")
    require (validSha256 s.sourceSha256) ("invalid lowercase sha256 \"" ++ s.sourceSha256 ++ "\"")
  require (decide (segments.Pairwise (·.path < ·.path)))
    ("date=" ++ date ++ " segment records are not unique and sorted")

/-- `validate_receipt`. -/
def validateReceipt (date : String) (r : PartitionReceipt) : Except String Unit := do
  require (r.version = 1) ("date=" ++ date ++
    " has unsupported ingest_partition_receipt_version " ++ toString r.version)
  require (date = r.partitionDate && r.databaseFile = databaseFile && r.databaseByteLength ≠ 0 &&
      r.identityScope = identityScope && 0 < r.firstFileOrderSeq && r.openedAtNs ≤ r.closedAtNs)
    ("invalid partition receipt in date=" ++ date)
  require (validSha256 r.databaseSha256) ("invalid lowercase sha256 \"" ++ r.databaseSha256 ++ "\"")
  require (r.lastFileOrderSeq = r.expectedLast && r.factRows ≤ r.evidenceRows)
    ("date=" ++ date ++ " has inconsistent row counts or sequence bounds")
  require (r.parentReceiptSha256.all validSha256) "invalid lowercase sha256"
  let _ ← r.terminalCarry.restore
  validateSegments date r.segments

/-! ## The receipt chain -/

structure PartitionEnv extends IngestEnv where
  /-- SHA-256 of a receipt's encoding. -/
  receiptDigest : PartitionReceipt → String

/-- The position after the last of a receipt. -/
def PartitionReceipt.nextFileOrderSeq (r : PartitionReceipt) : Nat :=
  match r.lastFileOrderSeq with
  | some last => last + 1
  | none => r.firstFileOrderSeq

/-- One link of the chain. -/
def validateLink (earlier later : ReceiptRecord) : Except String Unit := do
  require (later.receipt.parentReceiptSha256 = some earlier.digest)
    ("ingest partition receipt chain breaks between date=" ++ earlier.receipt.partitionDate ++
      " and date=" ++ later.receipt.partitionDate)
  require (later.receipt.firstFileOrderSeq = earlier.receipt.nextFileOrderSeq)
    ("file_order sequence breaks between date=" ++ earlier.receipt.partitionDate ++
      " and date=" ++ later.receipt.partitionDate)

/-- Each record continues the one before it. -/
def validateLinks : List ReceiptRecord → Except String Unit
  | earlier :: later :: records => do
    validateLink earlier later
    validateLinks (later :: records)
  | _ => .ok ()

/-- The validated receipts of the directories, by date. -/
def collectReceipts (env : PartitionEnv) (d : Disk) : Except String (List ReceiptRecord) := do
  let found ← (d.toList.filterMap fun (date, dir) => dir.receipt.map (date, ·)).mapM
    fun (date, receipt) => do
      validateReceipt date receipt
      return (⟨env.receiptDigest receipt, receipt⟩ : ReceiptRecord)
  return found.mergeSort fun left right =>
    decide (left.receipt.partitionDate ≤ right.receipt.partitionDate)

/-- `read_receipts`. -/
def readReceipts (env : PartitionEnv) (d : Disk) : Except String (List ReceiptRecord) := do
  let records ← collectReceipts env d
  require (!(records.head?.any (·.receipt.parentReceiptSha256.isSome)))
    "first ingest partition receipt claims a missing parent"
  validateLinks records
  return records

/-! ## The consumed index -/

/-- Consumed segments by path, with the digest each was consumed under. -/
abbrev ConsumedIndex := Std.ExtTreeMap String String

namespace ConsumedIndex

/-- `insert`, which is also `remember`. -/
def remember (index : ConsumedIndex) (path sha256 : String) : Except String ConsumedIndex := do
  require (validRelativePath path) ("invalid consumed segment path \"" ++ path ++ "\"")
  require (validSha256 sha256) ("invalid lowercase sha256 \"" ++ sha256 ++ "\"")
  require (index[path]?.all (· = sha256)) ("consumed segment \"" ++ path ++
    "\" has conflicting identities " ++ (index[path]?.getD "") ++ " and " ++ sha256)
  return index.insert path sha256

/-- `contains`: whether a sealed segment was consumed, under these very bytes. -/
def consumed (index : ConsumedIndex) (path sha256 : String) : Except String Bool :=
  match index[path]? with
  | none => .ok false
  | some expected =>
    if expected = sha256 then .ok true
    else .error ("sealed segment \"" ++ path ++ "\" now has sha256 " ++ sha256 ++
      "; its retained ingest receipt records " ++ expected)

/-- Every segment of every receipt. -/
def ofReceipts (records : List ReceiptRecord) : Except String ConsumedIndex :=
  (records.flatMap (·.receipt.segments)).foldlM
    (fun index s => index.remember s.path s.sourceSha256) ∅

end ConsumedIndex

/-! ## Opening -/

/-- `OpenPartition`; `state` is its store, classifier and tracker. -/
structure OpenPartition where
  marker : ActivePartition
  state : IngestState
  consumed : ConsumedIndex
  receipts : List ReceiptRecord

/-- What the next partition continues from. -/
def seedFrom : Option ReceiptRecord → Nat × Option String × IngestCarry
  | none => (1, none, {})
  | some record =>
    (record.receipt.nextFileOrderSeq, some record.digest, record.receipt.terminalCarry)

/-- The marker of a partition that continues the latest receipt. -/
def markerFrom (date : String) (now : Nat) (previous : Option ReceiptRecord) : ActivePartition where
  partitionDate := date
  openedAtNs := now
  firstFileOrderSeq := (seedFrom previous).1
  parentReceiptSha256 := (seedFrom previous).2.1
  initialCarry := (seedFrom previous).2.2

/-- `find_active`. -/
def findActive (d : Disk) : Except String (Option (String × ActivePartition)) :=
  match d.toList.filterMap fun (date, dir) => dir.active.map (date, ·) with
  | [] => .ok none
  | [found] => .ok (some found)
  | _ => .error "multiple active ingest partitions; refusing to guess which writer won"

/-- A directory that holds files of a partition and no receipt. -/
def PartitionDir.uncommitted (dir : PartitionDir) : Bool :=
  dir.receipt.isNone && (dir.active.isSome || dir.openDb.isSome || dir.closedDb.isSome)

/-- Which directory `recover_active_database` recovers, checked against the marker. -/
def findUncommitted (d : Disk) (marked : Option (String × ActivePartition)) :
    Except String (Option String) := do
  require (marked.all fun (date, _) => (d.dir date).receipt.isNone)
    "the active partition has both an active marker and a close receipt"
  match (d.toList.filter fun (_, dir) => dir.uncommitted).map (·.1) with
  | [] => .ok none
  | [date] => do
    require (marked.all fun (markedDate, _) => markedDate = date)
      "active marker and uncommitted database name different partitions"
    require (!((d.dir date).openDb.isSome && (d.dir date).closedDb.isSome))
      ("date=" ++ date ++ " contains both open and closed ingest databases")
    return some date
  | _ => .error "multiple uncommitted ingest partitions; refusing crash recovery"

/-- `recover_active_database`. -/
def recoverActiveDatabase (receipts : List ReceiptRecord) (now : Nat)
    (marked : Option (String × ActivePartition)) :
    Program Disk String (Option (String × ActivePartition)) := do
  let d ← .read
  match ← .lift (findUncommitted d marked) with
  | none => return none
  | some date => do
    if (d.dir date).closedDb.isSome then
      .write fun d => d.update date fun dir => { dir with openDb := dir.closedDb, closedDb := none }
    match marked with
    | some (_, marker) => return some (date, marker)
    | none => do
      let marker := markerFrom date now receipts.getLast?
      .write fun d => d.update date fun dir => { dir with active := some marker }
      return some (date, marker)

/-- `create_active`. -/
def createActive (date : String) (now : Nat) (previous : Option ReceiptRecord) :
    Program Disk String (String × ActivePartition) := do
  let d ← .read
  .lift (require (d.dir date).receipt.isNone
    ("cannot reopen committed ingest partition date=" ++ date))
  .write fun d => d.update date id
  let marker := markerFrom date now previous
  .write fun d => d.update date fun dir => { dir with active := some marker }
  return (date, marker)

/-- The checks of `open` between finding the active partition and opening its store. -/
def checkActive (d : Disk) (today : String) (receipts : List ReceiptRecord) (date : String)
    (marker : ActivePartition) : Except String Unit := do
  validateActive date marker
  require (decide ((marker.firstFileOrderSeq, marker.parentReceiptSha256, marker.initialCarry) =
      seedFrom receipts.getLast?))
    ("active ingest marker in date=" ++ date ++ " does not continue the latest receipt")
  require (decide (marker.partitionDate ≤ today))
    ("UTC clock moved backwards: active ingest partition is " ++ marker.partitionDate ++
      " but current date is " ++ today)
  require (d.dir date).receipt.isNone
    ("date=" ++ date ++ " has both an active marker and a close receipt")
  require (d.dir date).closedDb.isNone
    ("uncommitted closed database was not recovered in date=" ++ date)

/-- The classifier and tracker an open partition recovers from its carry and its facts. -/
def recoverState (env : IngestEnv) (carry : IngestCarry) (store : Store) :
    Except String IngestState := do
  let initial ← carry.restore
  let start : IngestState := ⟨store, Classifier.withoutIdentityHistory.restore initial, {}⟩
  match store.recoverFacts env.hashes (ContinuityFact.fromCanonicalBytes env.factJson)
      (fun (s : IngestState) fact => { s with
        tracker := s.tracker.observeFact fact, classifier := s.classifier.apply fact }) start with
  | .ok s => .ok s
  | .error e => .error ("recovering active partition state: " ++ e.text)

/-- `open`. -/
def OpenPartition.open (env : PartitionEnv) (now : Nat) : Program Disk String OpenPartition := do
  let today := datePartition now
  let d ← .read
  let receipts ← .lift (readReceipts env d)
  let consumed ← .lift (ConsumedIndex.ofReceipts receipts)
  let marked ← .lift (findActive d)
  let (date, marker) ← match ← recoverActiveDatabase receipts now marked with
    | some active => pure active
    | none => createActive today now receipts.getLast?
  let d ← .read
  .lift (checkActive d today receipts date marker)
  match Store.openPartition (d.dir date).openDb marker.firstFileOrderSeq with
  | .error e => .fail ("opening partition date=" ++ date ++ ": " ++ e.text)
  | .ok store => do
    .write fun d => d.update date fun dir => { dir with openDb := some store.tables }
    let consumed ← .lift (store.consumedSegments.foldlM
      (fun index s => index.remember s.spoolFile s.sourceSha256) consumed)
    let state ← .lift (recoverState env.toIngestEnv marker.initialCarry store)
    return ⟨marker, state, consumed, receipts⟩

/-! ## Closing -/

/-- What a closed database file turns out to be. -/
structure Fingerprint where
  byteLength : Nat
  sha256 : String
deriving DecidableEq

namespace OpenPartition

/-- `should_rotate`. -/
def shouldRotate (p : OpenPartition) (now : Nat) : Except String Bool :=
  let today := datePartition now
  if today < p.marker.partitionDate then
    .error ("UTC clock moved backwards: active ingest partition is " ++ p.marker.partitionDate ++
      " but current date is " ++ today)
  else .ok (today ≠ p.marker.partitionDate)

/-- The receipt `close` publishes, with the fingerprint of the closed file. -/
def receipt (p : OpenPartition) (now : Nat) (file : Fingerprint) : PartitionReceipt :=
  let store := p.state.store
  { partitionDate := p.marker.partitionDate
    openedAtNs := p.marker.openedAtNs
    closedAtNs := now
    databaseByteLength := file.byteLength
    databaseSha256 := file.sha256
    firstFileOrderSeq := store.firstEvidence
    lastFileOrderSeq :=
      if store.firstEvidence < store.nextEvidence then some (store.nextEvidence - 1) else none
    evidenceRows := store.evidenceCount
    factRows := store.factCount
    parentReceiptSha256 := p.marker.parentReceiptSha256
    terminalCarry := p.state.tracker.capture p.state.classifier.state
    segments := (store.consumedSegments.map fun s =>
      (⟨s.spoolFile, s.lane, s.sourceSha256, s.byteLength, s.lineCount⟩ : SegmentRecord)).mergeSort
        fun left right => decide (left.path ≤ right.path) }

/-- `close`. -/
def close (env : PartitionEnv) (p : OpenPartition) (now : Nat) (file : Fingerprint) :
    Program Disk String ReceiptRecord := do
  let date := p.marker.partitionDate
  let receipt := p.receipt now file
  .lift (receipt.segments.forM fun s => do
    require (validRelativePath s.path) ("invalid consumed segment path \"" ++ s.path ++ "\"")
    require (validSha256 s.sourceSha256) ("invalid lowercase sha256 \"" ++ s.sourceSha256 ++ "\""))
  let d ← .read
  .lift (require (d.dir date).closedDb.isNone
    ("closed partition database already exists: date=" ++ date ++ "/store.db"))
  .write fun d => d.update date fun dir => { dir with closedDb := dir.openDb, openDb := none }
  .lift (validateReceipt date receipt)
  -- the receipt is the commit marker and is published last
  .write fun d => d.update date fun dir => { dir with active := none }
  .write fun d => d.update date fun dir => { dir with receipt := some receipt }
  return ⟨env.receiptDigest receipt, receipt⟩

/-- `rotate`. -/
def rotate (env : PartitionEnv) (p : OpenPartition) (now : Nat) (file : Fingerprint) :
    Program Disk String OpenPartition := do
  if ← .lift (p.shouldRotate now) then do
    let _ ← p.close env now file
    OpenPartition.open env now
  else return p

end OpenPartition

end PredictionIndexer.Ingest
