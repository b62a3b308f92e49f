import PredictionIndexer.Ingest.Partition
import PredictionIndexer.Segments.Seal

/-!
# The ingest process

`ingester/crates/cli/src/main.rs` (`run`): open the active partition, then pass after pass over the
discovered segments, with a rollover check before every segment.

What a process reads from outside is data of the model: the clock, the segments a pass discovers,
the fingerprint of a file it closes. A process validates a segment right before its ingest, and a
segment ingested once is in the consumed index, so the memo of validated paths never has a hit and
is left out, as are the report and `--check-integrity`, which write nothing durable.
-/

namespace PredictionIndexer.Ingest

open Durable Fallible Segments

/-- A discovered data file with its sidecar. -/
structure SealedSegment where
  lane : String
  /-- `relative_segment_path`. -/
  key : String
  declared : SegmentSeal
  content : List UInt8
deriving DecidableEq

/-- What `ingest_file` reads of it. -/
def SealedSegment.toSegment (f : SealedSegment) : Segment where
  lane := f.lane
  key := f.key
  content := f.content
  sha256 := f.declared.sha256
  byteLength := f.declared.byteLength
  lineCount := f.declared.lineCount

structure RunEnv extends PartitionEnv where
  /-- SHA-256 of a data file. -/
  dataDigest : List UInt8 → String

def IngestError.text : IngestError → String
  | store e => e.text
  | message text => text
  | panic => "panic"

/-- A refused check, as the message the process ends with. -/
def asIngestError {α : Type} : Except String α → Except IngestError α
  | .ok a => .ok a
  | .error text => .error (.message text)

/-- `validate_sealed_segment`, as the process runs it. -/
def SealedSegment.validate (env : RunEnv) (f : SealedSegment) : Except IngestError Unit :=
  match validateSealedSegment env.dataDigest env.mode f.lane (String.ofList (Store.fileName f.key))
      f.key f.declared f.content with
  | .ok () => .ok ()
  | .error (.err text) => .error (.message text)
  | .error .panic => .error .panic

/-- One discovered segment, in the partition that is open. -/
def visitSegment (env : RunEnv) (index : ConsumedIndex) (f : SealedSegment) :
    Program IngestState IngestError ConsumedIndex := do
  .lift (asIngestError (require (validRelativePath f.key)
    ("invalid consumed segment path \"" ++ f.key ++ "\"")))
  let done ← .lift (asIngestError (index.consumed f.key f.declared.sha256))
  if done then return index
  else do
    .lift (f.validate env)
    ingestFile env.toIngestEnv f.toSegment
    .lift (asIngestError (index.remember f.key f.declared.sha256))

/-- The discovered segments in turn, each to completion. -/
def visitSegments (env : RunEnv) (index : ConsumedIndex) :
    List SealedSegment → Program IngestState IngestError ConsumedIndex
  | [] => pure index
  | f :: files => do
    let index ← visitSegment env index f
    visitSegments env index files

/-! ## In the open partition -/

namespace OpenPartition

/-- Runs a computation on the state of the open partition. Every write of it lands in the open
    database. -/
def run {α : Type} (p : OpenPartition) (x : Program IngestState IngestError α) :
    Program Disk String (OpenPartition × α) := fun d =>
  let o := x p.state
  { writes := o.writes.map fun s =>
      d.update p.marker.partitionDate fun dir => { dir with openDb := some s.store.tables }
    result := match o.result with
      | .ok a => .ok ({ p with state := o.final p.state }, a)
      | .error e => .error e.text }

end OpenPartition

/-- A reading of the clock, and what a database closed then turns out to be. -/
structure Tick where
  now : Nat
  file : Fingerprint
deriving DecidableEq

/-- A rollover check and one discovered segment. -/
def visit (env : RunEnv) (p : OpenPartition) (tick : Tick) (f : SealedSegment) :
    Program Disk String OpenPartition := do
  let p ← p.rotate env.toPartitionEnv tick.now tick.file
  let (p, consumed) ← p.run (visitSegment env p.consumed f)
  return { p with consumed }

def visits (env : RunEnv) (p : OpenPartition) :
    List (Tick × SealedSegment) → Program Disk String OpenPartition
  | [] => pure p
  | (tick, f) :: files => do
    let p ← visit env p tick f
    visits env p files

/-- One round of the loop of `run`. -/
structure Pass where
  start : Tick
  files : List (Tick × SealedSegment)
  finish : Tick

def runPass (env : RunEnv) (p : OpenPartition) (pass : Pass) :
    Program Disk String OpenPartition := do
  let p ← p.rotate env.toPartitionEnv pass.start.now pass.start.file
  let p ← visits env p pass.files
  p.rotate env.toPartitionEnv pass.finish.now pass.finish.file

def runPasses (env : RunEnv) (p : OpenPartition) :
    List Pass → Program Disk String OpenPartition
  | [] => pure p
  | pass :: passes => do
    let p ← runPass env p pass
    runPasses env p passes

/-- `run`: one process from its start to its end. -/
def run (env : RunEnv) (now : Nat) (passes : List Pass) :
    Program Disk String OpenPartition := do
  let p ← OpenPartition.open env.toPartitionEnv now
  runPasses env p passes

end PredictionIndexer.Ingest
