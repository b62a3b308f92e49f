import PredictionIndexer.ForStd.Json
import PredictionIndexer.ForStd.Raising
import PredictionIndexer.Splices.Names

/-!
# A segment and its seal

`splices/common/segment.py`: `SegmentWriter` owns one open file and what its seal will say of it.
Every call into the operating system may raise, a write may be short, and the caller may catch what
was raised and call again, so a call of the writer is a computation with a trail of states: the
writer object, the files, and what the host has still to answer.

Flushing an unbuffered handle does nothing and is no step. Whether the fsync interval has elapsed,
which the source reads off a monotonic clock in floating point, is an answer of the host.
-/

namespace PredictionIndexer.Splices

open Durable Durable.Program

/-! ## Seals -/

/-- A record: one line, and the fields of it the seal needs. Encoding refuses a text with a line
    feed and ends it with one. -/
structure Record where
  line : List UInt8
  visibleNs : Nat
  deliveryIndex : Nat
  epoch : String
  line_count : line.count 10 = 1
  line_last : line.getLast? = some 10
deriving DecidableEq

/-- What a sealed segment asserts about itself. What recovery reads off a name need not be a natural
    number. -/
structure Seal where
  sealVersion : Nat
  laneId : String
  windowStartNs : Int
  windowEndNs : Int
  dataFile : String
  byteLength : Nat
  lineCount : Nat
  sha256 : String
  firstDeliveryIndex : Option Nat
  lastDeliveryIndex : Option Nat
  firstVisibleNs : Option Nat
  lastVisibleNs : Option Nat
  visibleNonDecreasing : Bool
  deliveryIndexDense : Bool
  segmentId : String
  segmentIndex : Int
  sealReason : String
  orderingStatus : String
  epochs : List String
  repairedBytes : Nat
  createdNs : Nat
  writerVersion : Nat
  extra : List (String × Json)

/-- The fields of a seal. -/
def Seal.fields (s : Seal) : List (String × Json) :=
  let optional := Json.ofOption fun (n : Nat) => .number n
  [("seal_version", .number s.sealVersion),
   ("lane_id", .string s.laneId),
   ("window_start_ns", .number s.windowStartNs),
   ("window_end_ns", .number s.windowEndNs),
   ("data_file", .string s.dataFile),
   ("byte_length", .number s.byteLength),
   ("line_count", .number s.lineCount),
   ("sha256", .string s.sha256),
   ("first_delivery_index", optional s.firstDeliveryIndex),
   ("last_delivery_index", optional s.lastDeliveryIndex),
   ("first_visible_ns", optional s.firstVisibleNs),
   ("last_visible_ns", optional s.lastVisibleNs),
   ("visible_non_decreasing", .bool s.visibleNonDecreasing),
   ("delivery_index_dense", .bool s.deliveryIndexDense),
   ("segment_id", .string s.segmentId),
   ("segment_index", .number s.segmentIndex),
   ("seal_reason", .string s.sealReason),
   ("ordering_status", .string s.orderingStatus),
   ("epochs", .array (s.epochs.map .string)),
   ("repaired_bytes", .number s.repairedBytes),
   ("created_ns", .number s.createdNs),
   ("writer_version", .number s.writerVersion)]

/-- `Seal.as_record`; a name in `extra` wins over a field. -/
def Seal.asRecord (s : Seal) : Json := .object (s.extra ++ s.fields)

theorem length_noBytes : 0 = ([] : List UInt8).length := rfl

theorem count_noBytes : 0 = ([] : List UInt8).count 10 := rfl

/-- `_Accumulator`: everything the seal asserts, maintained as bytes are written. The running digest
    is what it was fed. -/
structure Accumulator where
  digested : List UInt8 := []
  byteLength : Nat := 0
  lineCount : Nat := 0
  firstDeliveryIndex : Option Nat := none
  lastDeliveryIndex : Option Nat := none
  firstVisibleNs : Option Nat := none
  lastVisibleNs : Option Nat := none
  visibleNonDecreasing : Bool := true
  deliveryIndexDense : Bool := true
  epochs : List String := []
  /-- Where the previous segment's records ended. -/
  previousVisibleNs : Option Nat := none
  byteLength_eq : byteLength = digested.length := by exact length_noBytes
  lineCount_eq : lineCount = digested.count 10 := by exact count_noBytes
deriving DecidableEq

namespace Accumulator

def observe (a : Accumulator) (r : Record) : Accumulator :=
  let lineCount := a.lineCount + 1
  let preceding := if 1 < lineCount then a.lastVisibleNs else a.previousVisibleNs
  let regressed := preceding.any fun p => r.visibleNs < p
  { a with
    digested := a.digested ++ r.line
    byteLength := a.byteLength + r.line.length
    lineCount := lineCount
    visibleNonDecreasing := a.visibleNonDecreasing && !regressed
    firstDeliveryIndex := a.firstDeliveryIndex.or (some r.deliveryIndex)
    firstVisibleNs := if a.firstDeliveryIndex.isNone then some r.visibleNs else a.firstVisibleNs
    deliveryIndexDense := a.deliveryIndexDense &&
      (a.firstDeliveryIndex.isNone || r.deliveryIndex = a.lastDeliveryIndex.getD 0 + 1)
    lastDeliveryIndex := some r.deliveryIndex
    lastVisibleNs := some r.visibleNs
    epochs := if a.epochs.getLast? = some r.epoch then a.epochs else a.epochs ++ [r.epoch]
    byteLength_eq := by rw [List.length_append, a.byteLength_eq]
    lineCount_eq := by rw [List.count_append, r.line_count, ← a.lineCount_eq] }

end Accumulator

/-! ## The host -/

/-- What the operating system answers to one call. -/
inductive Answer where
  | ok
  /-- A write of fewer bytes than asked. -/
  | short (written : Nat)
  | error (text : String)
deriving DecidableEq

/-- What the host has still to answer; from the end of each list on nothing fails, no interval has
    elapsed and the clock stands at zero. -/
structure Host where
  answers : List Answer := []
  elapsed : List Bool := []
  times : List Nat := []
  ids : List { id : String // IsHex id } := []
deriving DecidableEq

/-- What a call may raise. -/
inductive Raised where
  | os (text : String)
  | segment (message : String)
deriving DecidableEq, Repr

def Raised.text : Raised → String
  | .os text => text
  | .segment message => message

/-! ## The files of one segment -/

/-- The names of one segment. The text of a seal is absent from its file until it is all written. -/
structure SegmentFiles where
  openFile : Entry (List UInt8) := {}
  dataFile : Entry (List UInt8) := {}
  temporary : Entry (Option Seal) := {}
  sealFile : Entry (Option Seal) := {}

namespace SegmentFiles

/-- `os.replace` of the open file by its committed name. -/
def rename (f : SegmentFiles) : SegmentFiles :=
  { f with dataFile := f.dataFile.bind f.openFile.now, openFile := f.openFile.bind none }

/-- `os.replace` of the temporary file by the seal. -/
def renameSeal (f : SegmentFiles) : SegmentFiles :=
  { f with sealFile := f.sealFile.bind f.temporary.now, temporary := f.temporary.bind none }

/-- `_fsync_directory`. -/
def settle (f : SegmentFiles) : SegmentFiles :=
  ⟨f.openFile.settle, f.dataFile.settle, f.temporary.settle, f.sealFile.settle⟩

end SegmentFiles

/-! ## The writer -/

/-- What a writer is told once, when it is opened. -/
structure Placement where
  lane : String
  startNs : Nat
  segmentSeconds : Nat := defaultSegmentSeconds
  segmentIndex : Nat := 0
  segmentId : String
deriving DecidableEq

namespace Placement

def endNs (p : Placement) : Nat := p.startNs + p.segmentSeconds * nanoseconds

def stem (p : Placement) : String := segmentFilename p.startNs p.segmentIndex p.segmentId

def openName (p : Placement) : String := p.stem ++ openSuffix

def dataName (p : Placement) : String := p.stem ++ dataSuffix

def sealName (p : Placement) : String := p.stem ++ sealSuffix

end Placement

/-- What a writer keeps. -/
structure SegmentWriter where
  /-- The open file is held. -/
  handle : Bool := true
  accumulator : Accumulator := {}
  unsynced : Nat := 0
  writeFailure : Option Raised := none
  repairedBytes : Nat := 0
  orderingStatus : String := "ok"
  sealed : Option Seal := none

structure SegmentState where
  writer : SegmentWriter
  files : SegmentFiles
  host : Host

namespace SegmentState

/-- A writer that has just been opened under names that nothing had. -/
def opened (previousVisibleNs : Option Nat) (host : Host) : SegmentState where
  writer := { accumulator := { previousVisibleNs := previousVisibleNs } }
  files := { openFile := Entry.bind {} (some ⟨[], false⟩) }
  host := host

end SegmentState

/-- A computation of a segment writer. -/
abbrev SegmentProgram : Type → Type := Program SegmentState Raised

/-- One call into the operating system: it does what it is for, or raises and does nothing. -/
def call (f : SegmentFiles → SegmentFiles) : SegmentProgram Unit :=
  effect fun s =>
    let host := { s.host with answers := s.host.answers.tail }
    match s.host.answers.head? with
    | some (.error text) => ({ s with host := host }, .error (.os text))
    | _ => ({ s with files := f s.files, host := host }, .ok ())

/-- `self._handle.write(remaining)`: how many bytes went into the file. -/
def writeSome (bytes : List UInt8) : SegmentProgram Nat :=
  effect fun s =>
    let host := { s.host with answers := s.host.answers.tail }
    let put := fun (written : Nat) =>
      { s with
        files.openFile := s.files.openFile.modify (· ++ bytes.take written)
        host := host }
    match s.host.answers.head? with
    | some (.error text) => ({ s with host := host }, .error (.os text))
    | some (.short written) => (put (min written bytes.length), .ok (min written bytes.length))
    | _ => (put bytes.length, .ok bytes.length)

/-- `handle.truncate(size)`: a shorter file is filled with zeros. -/
def truncated (size : Nat) (content : List UInt8) : List UInt8 :=
  content.take size ++ List.replicate (size - content.length) 0

/-- A question to the host that cannot fail. -/
def ask {α : Type} (f : Host → Host × α) : SegmentProgram α :=
  effect fun s => ({ s with host := (f s.host).1 }, .ok (f s.host).2)

/-- Whether the interval has elapsed. -/
def intervalElapsed : SegmentProgram Bool :=
  ask fun host => ({ host with elapsed := host.elapsed.tail }, host.elapsed.headD false)

/-- `time.time_ns()`. -/
def timeNs : SegmentProgram Nat :=
  ask fun host => ({ host with times := host.times.tail }, host.times.headD 0)

/-- The writer object changes in memory. -/
def assign (f : SegmentWriter → SegmentWriter) : SegmentProgram Unit :=
  write fun s => { s with writer := f s.writer }

namespace SegmentWriter

/-- The write loop of `write_batch`; `total` is the length of the whole payload. -/
def writeAll (total : Nat) (remaining : List UInt8) : SegmentProgram Unit :=
  if _h : remaining = [] then pure ()
  else do
    let written ← writeSome remaining
    if _h : written = 0 then
      fail (.os ("segment write made no progress at byte " ++ toString (total - remaining.length)))
    else writeAll total (remaining.drop written)
termination_by remaining.length
decreasing_by
  have := List.length_pos_iff.mpr ‹remaining ≠ []›
  rw [List.length_drop]
  omega

/-- Back to the last committed offset, durably. -/
def rollBack (committedOffset : Nat) : SegmentProgram Unit := do
  call fun f => { f with openFile := f.openFile.modify (truncated committedOffset) }
  call id
  call fun f => { f with openFile := f.openFile.sync }

def fsyncIfDue (force : Bool) : SegmentProgram Bool := do
  let s ← read
  if !s.writer.handle || s.writer.unsynced = 0 then pure false
  else do
    let elapsed ← intervalElapsed
    if !force && !elapsed then pure false
    else do
      call fun f => { f with openFile := f.openFile.sync }
      assign fun w => { w with unsynced := 0 }
      pure true

/-- A record is folded into the seal state. -/
def observe (w : SegmentWriter) (r : Record) : SegmentWriter :=
  let accumulator := w.accumulator.observe r
  { w with
    accumulator := accumulator
    orderingStatus :=
      if accumulator.visibleNonDecreasing then w.orderingStatus else "visible_clock_regression" }

def writeBatch (records : List Record) : SegmentProgram Nat := do
  let s ← read
  if !s.writer.handle then fail (.segment "segment is already sealed")
  else if s.writer.writeFailure.isSome then
    fail (.segment "segment is unsafe after a failed batch rollback")
  else if records.isEmpty then pure 0
  else do
    let payload := records.flatMap (·.line)
    let committedOffset := s.writer.accumulator.byteLength
    match ← caught (writeAll payload.length payload) with
    | .error writeError => do
      match ← caught (rollBack committedOffset) with
      | .error rollbackError => do
        assign fun w => { w with writeFailure := some rollbackError }
        fail (.segment ("batch write failed and the segment could not roll back to byte " ++
          toString committedOffset ++ ": " ++ rollbackError.text))
      | .ok () => fail writeError
    | .ok () => do
      assign fun w => records.foldl observe w
      assign fun w => { w with unsynced := w.unsynced + payload.length }
      let _ ← fsyncIfDue false
      pure payload.length

/-! ## Sealing -/

/-- The seal of what the writer has accumulated. -/
def describe (sha256 : List UInt8 → String) (p : Placement) (w : SegmentWriter) (reason : String)
    (extra : List (String × Json)) (createdNs : Nat) : Seal where
  sealVersion := 1
  laneId := p.lane
  windowStartNs := p.startNs
  windowEndNs := p.endNs
  dataFile := p.dataName
  byteLength := w.accumulator.byteLength
  lineCount := w.accumulator.lineCount
  sha256 := sha256 w.accumulator.digested
  firstDeliveryIndex := w.accumulator.firstDeliveryIndex
  lastDeliveryIndex := w.accumulator.lastDeliveryIndex
  firstVisibleNs := w.accumulator.firstVisibleNs
  lastVisibleNs := w.accumulator.lastVisibleNs
  visibleNonDecreasing := w.accumulator.visibleNonDecreasing
  deliveryIndexDense := w.accumulator.deliveryIndexDense
  segmentId := p.segmentId
  segmentIndex := p.segmentIndex
  sealReason := reason
  orderingStatus := w.orderingStatus
  epochs := w.accumulator.epochs
  repairedBytes := w.repairedBytes
  createdNs := createdNs
  writerVersion := 1
  extra := extra

/-- `_write_seal`: the temporary file is opened, written, synced and closed, then renamed. -/
def writeSeal (sidecar : Seal) : SegmentProgram Unit := do
  call fun f => { f with temporary := f.temporary.bind (some ⟨none, false⟩) }
  call fun f => { f with temporary := f.temporary.modify fun _ => some sidecar }
  call fun f => { f with temporary := f.temporary.sync }
  call id
  call SegmentFiles.renameSeal
  call SegmentFiles.settle

/-- The data file is synced, closed and given its committed name, if the handle was still held. -/
def publishData (handle : Bool) : SegmentProgram Unit :=
  if !handle then pure ()
  else do
    call fun f => { f with openFile := f.openFile.sync }
    call id
    call SegmentFiles.rename
    call SegmentFiles.settle

/-- `seal`, the commit: the handle is dropped before anything is done with it. -/
def sealSegment (sha256 : List UInt8 → String) (p : Placement) (reason : String)
    (extra : List (String × Json)) : SegmentProgram Seal := do
  let s ← read
  match s.writer.sealed with
  | some sidecar => pure sidecar
  | none => do
    assign fun w => { w with handle := false }
    publishData s.writer.handle
    let s ← read
    let createdNs ← timeNs
    let sidecar := describe sha256 p s.writer reason extra createdNs
    writeSeal sidecar
    assign fun w => { w with sealed := some sidecar }
    pure sidecar

end SegmentWriter

end PredictionIndexer.Splices
