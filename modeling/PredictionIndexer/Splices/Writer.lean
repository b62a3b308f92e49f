import PredictionIndexer.Splices.Segment

/-!
# The lane writer

`splices/common/writer.py`: `LaneWriter` owns one lane's segments, the queue the records and the
segment boundaries travel through, and the one thread that touches the disk. Here the event loop is
what it can do to the writer: an item is put, the drain loop takes some of the queue to the disk,
the splice closes.

The drain loop takes what is there, up to a batch; here any part of the queue may be taken. A batch
in flight when the splice closes is one that was drained before it closed. Waiting for room in the
queue is not part of the model: an item is put when there is room.
-/

namespace PredictionIndexer.Splices

open Durable Durable.Program

inductive Item where
  | record (r : Record)
  /-- `_Rotate`: a segment boundary. -/
  | rotate (startNs : Nat)
deriving DecidableEq

theorem defaultSegmentSeconds_pos : 0 < defaultSegmentSeconds := by decide

theorem defaultSegmentSeconds_tiles : defaultSegmentSeconds ∣ 86400 := by decide

/-- The arguments of a lane writer; its windows tile the day. -/
structure LaneConfig where
  lane : String
  segmentSeconds : Nat := defaultSegmentSeconds
  queueCapacity : Nat := 20000
  /-- The JSON text of a floating-point number of seconds. -/
  fsyncInterval : Json := .string "0.25"
  positive : 0 < segmentSeconds := by exact defaultSegmentSeconds_pos
  tiles : segmentSeconds ∣ 86400 := by exact defaultSegmentSeconds_tiles

structure LaneWriter where
  queue : List Item := []
  /-- The drain task has not ended. -/
  draining : Bool := true
  closed : Bool := false
  seals : List Seal := []
  queueHighWater : Nat := 0
  queueFullEvents : Nat := 0
  recordsWritten : Nat := 0
  unwritten : List Record := []
  fatal : Option Raised := none
  previousVisibleNs : Option Nat := none

/-- The writer, its current segment, and what is on disk. -/
structure LaneState where
  lane : LaneWriter
  placement : Placement
  segment : SegmentWriter
  files : SegmentFiles
  host : Host
  /-- The segments opened before the current one, in the order they were opened. -/
  earlier : List (Placement × SegmentFiles) := []
  /-- The data files of other processes. -/
  present : List String := []

/-- A computation of a lane writer. -/
abbrev LaneProgram : Type → Type := Program LaneState Raised

namespace LaneState

/-- The state of the current segment's writer. -/
def current (s : LaneState) : SegmentState := ⟨s.segment, s.files, s.host⟩

def withCurrent (t : SegmentState) (s : LaneState) : LaneState :=
  { s with segment := t.writer, files := t.files, host := t.host }

/-- Every segment of this process, in the order they were opened. -/
def segments (s : LaneState) : List (Placement × SegmentFiles) :=
  s.earlier ++ [(s.placement, s.files)]

end LaneState

/-- The names of a segment's data that are there. -/
def SegmentFiles.dataNames (p : Placement) (f : SegmentFiles) : List String :=
  (if f.openFile.now.isSome then [p.openName] else []) ++
    if f.dataFile.now.isSome then [p.dataName] else []

/-- `next_segment_index`, over the data files there are. -/
def nextSegmentIndex (names : List String) (startNs : Nat) : Nat :=
  let stamp := (Moment.ofNanoseconds startNs).stamp ++ ['-']
  names.countP fun name => stamp.isPrefixOf name.toList &&
    ((beforeSuffix dataSuffix name).isSome || (beforeSuffix openSuffix name).isSome)

namespace LaneState

/-- The data files of the lane. -/
def dataNames (s : LaneState) : List String :=
  s.present ++ s.segments.flatMap fun (p, f) => f.dataNames p

/-- A lane writer that has just opened its first segment. -/
def opened (c : LaneConfig) (startNs : Nat) (segmentId : String) (previousVisibleNs : Option Nat)
    (host : Host) (present : List String) : LaneState where
  lane := { previousVisibleNs := previousVisibleNs }
  placement := ⟨c.lane, startNs, c.segmentSeconds, nextSegmentIndex present startNs, segmentId⟩
  segment := (SegmentState.opened previousVisibleNs host).writer
  files := (SegmentState.opened previousVisibleNs host).files
  host := host
  present := present

end LaneState

namespace LaneWriter

/-- A computation of the current segment. -/
def onSegment {α : Type} (x : SegmentProgram α) : LaneProgram α :=
  zoom LaneState.current LaneState.withCurrent x

/-- One call into the operating system that is no call of a segment. -/
def laneCall (f : LaneState → LaneState) : LaneProgram Unit :=
  effect fun s =>
    let host := { s.host with answers := s.host.answers.tail }
    match s.host.answers.head? with
    | some (.error text) => ({ s with host := host }, .error (.os text))
    | _ => (f { s with host := host }, .ok ())

/-- `secrets.token_hex(4)`. -/
def tokenHex : LaneProgram { id : String // IsHex id } :=
  effect fun s =>
    ({ s with host.ids := s.host.ids.tail }, .ok (s.host.ids.headD ⟨"00000000", by decide⟩))

/-- The object changes in memory. -/
def assignLane (f : LaneWriter → LaneWriter) : LaneProgram Unit :=
  write fun s => { s with lane := f s.lane }

/-- The constructor of a segment writer replaces the current segment. -/
def install (p : Placement) (s : LaneState) : LaneState :=
  { s with
    placement := p
    segment := (SegmentState.opened s.lane.previousVisibleNs s.host).writer
    files := (SegmentState.opened s.lane.previousVisibleNs s.host).files
    earlier := s.segments }

/-- `_open`: a directory is made, a name that is free is chosen, a file is created. -/
def openSegment (c : LaneConfig) (startNs : Nat) : LaneProgram Unit := do
  let s ← read
  let index := nextSegmentIndex s.dataNames startNs
  let segmentId ← tokenHex
  let p : Placement := ⟨c.lane, startNs, c.segmentSeconds, index, segmentId.val⟩
  laneCall id
  if s.dataNames.contains p.openName || s.dataNames.contains p.dataName then
    fail (.segment ("segment already exists: " ++ p.openName))
  else laneCall (install p)

def metrics (c : LaneConfig) (w : LaneWriter) : List (String × Json) :=
  [("queue_capacity", .number c.queueCapacity),
   ("queue_high_water", .number w.queueHighWater),
   ("queue_full_events", .number w.queueFullEvents),
   ("fsync_interval_seconds", c.fsyncInterval)]

variable (sha256 : List UInt8 → String) (c : LaneConfig)

/-- `_flush`: a batch the disk refuses is retained and the error latched. -/
def flush (records : List Record) : LaneProgram Unit :=
  if records.isEmpty then pure ()
  else do
    match ← caught (onSegment (SegmentWriter.writeBatch records)) with
    | .error error => do
      assignLane fun w =>
        { w with unwritten := w.unwritten ++ records, fatal := some error }
      fail error
    | .ok _ => assignLane fun w => { w with recordsWritten := w.recordsWritten + records.length }

/-- The current segment is sealed and its seal kept. -/
def sealCurrent (reason : String) : LaneProgram Seal := do
  let s ← read
  let sidecar ← onSegment
    (SegmentWriter.sealSegment sha256 s.placement reason (metrics c s.lane))
  assignLane fun w => { w with seals := w.seals ++ [sidecar] }
  pure sidecar

/-- `_rotate_to`. -/
def rotateTo (startNs : Nat) : LaneProgram Unit := do
  let sidecar ← sealCurrent sha256 c "boundary"
  assignLane fun w =>
    { w with previousVisibleNs := sidecar.lastVisibleNs.or w.previousVisibleNs }
  openSegment c startNs

/-- `_consume`, with the records that wait for the next flush. -/
def consume : List Item → List Record → LaneProgram Unit
  | [], pending => flush pending
  | .rotate startNs :: items, pending => do
    flush pending
    rotateTo sha256 c startNs
    consume items []
  | .record r :: items, pending => do
    let s ← read
    if s.placement.endNs ≤ r.visibleNs then do
      flush pending
      rotateTo sha256 c (windowStartNs r.visibleNs c.segmentSeconds)
      consume items [r]
    else consume items (pending ++ [r])

/-- `_apply`. -/
def apply (batch : List Item) (drained : Bool) : LaneProgram Unit := do
  consume sha256 c batch []
  if drained then do
    let _ ← onSegment (SegmentWriter.fsyncIfDue true)
    pure ()
  else pure ()

/-- One turn of `_drain_forever`, which ends the task when it raises. -/
def drain (size : Nat) : LaneProgram Unit := do
  let s ← read
  if !s.lane.draining || s.lane.closed || s.lane.queue.isEmpty then pure ()
  else do
    let batch := s.lane.queue.take (size + 1)
    let left := s.lane.queue.drop (size + 1)
    assignLane fun w => { w with queue := left }
    match ← caught (apply sha256 c batch left.isEmpty) with
    | .error _ => assignLane fun w => { w with draining := false }
    | .ok _ => pure ()

/-- `append` and `rotate_at`: a record is refused once the writer is closed or storage has failed. -/
def put (item : Item) : LaneProgram Unit := do
  let s ← read
  match item with
  | .record _ =>
    if s.lane.closed then fail (.segment "lane writer is closed")
    else match s.lane.fatal with
      | some error => fail error
      | none => assignLane fun w =>
        { w with
          queue := w.queue ++ [item]
          queueFullEvents := w.queueFullEvents + if c.queueCapacity ≤ w.queue.length then 1 else 0
          queueHighWater := max w.queueHighWater (w.queue.length + 1) }
  | .rotate _ => assignLane fun w => { w with queue := w.queue ++ [item] }

/-- `close`. -/
def close (reason : String) : LaneProgram (Option Seal) := do
  let s ← read
  if s.lane.closed then pure s.lane.seals.getLast?
  else do
    let remaining := s.lane.unwritten.map Item.record ++ s.lane.queue
    assignLane fun w =>
      { w with closed := true, draining := false, unwritten := [], queue := [] }
    consume sha256 c remaining []
    let s ← read
    if !s.lane.unwritten.isEmpty then
      fail (.segment (toString s.lane.unwritten.length ++
        " accepted record(s) could not be written; refusing to seal " ++ s.placement.dataName))
    else do
      let sidecar ← sealCurrent sha256 c reason
      pure (some sidecar)

end LaneWriter

end PredictionIndexer.Splices
