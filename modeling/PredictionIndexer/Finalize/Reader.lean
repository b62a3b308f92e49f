import PredictionIndexer.Finalize.Merge
import PredictionIndexer.Finalize.Windows
import PredictionIndexer.Continuity.Classifier

/-!
# Reading a lane

`ingester/crates/finalize/src/reader.rs`: one lane's records out of its sealed segments, in order,
each record reconciled with the seal while it streams.

The disk is what opening a path gives: the bytes of the file, and the error the reads run into
behind them, if any. `SerdeJson` and SHA-256 are third-party code and parameters.
-/

namespace PredictionIndexer.Finalize

open Continuity Fallible Segments

/-! ## Files -/

/-- An open file: the bytes ahead, and the error behind them. -/
structure Source where
  bytes : List UInt8
  failure : Option String := none
deriving DecidableEq

/-- `read_until(b'\n')` on bytes: the line with its newline, or all of them. -/
def readUntil : List UInt8 → List UInt8 × List UInt8
  | [] => ([], [])
  | b :: bytes =>
    if b = 10 then ([b], bytes)
    else
      let (line, rest) := readUntil bytes
      (b :: line, rest)

/-- A line that the error cuts short is lost. -/
def Source.readLine (source : Source) : Except String (List UInt8 × Source) :=
  let (line, rest) := readUntil source.bytes
  match source.failure with
  | some error =>
    if line.getLast? = some 10 then .ok (line, { source with bytes := rest }) else .error error
  | none => .ok (line, { source with bytes := rest })

/-! ## Claims -/

/-- What a seal asserts about the records inside its segment. -/
structure SegmentClaims where
  windowStartNs : Nat
  windowEndNs : Nat
  lineCount : Nat
  firstVisibleNs : Option Nat
  lastVisibleNs : Option Nat
  firstDeliveryIndex : Option Nat
  lastDeliveryIndex : Option Nat
  deliveryIndexDense : Bool
  visibleNonDecreasing : Bool
deriving DecidableEq

def SegmentClaims.fromSeal (declared : SegmentSeal) : SegmentClaims where
  windowStartNs := declared.windowStartNs
  windowEndNs := declared.windowEndNs
  lineCount := declared.lineCount
  firstVisibleNs := declared.firstVisibleNs
  lastVisibleNs := declared.lastVisibleNs
  firstDeliveryIndex := declared.firstDeliveryIndex
  lastDeliveryIndex := declared.lastDeliveryIndex
  deliveryIndexDense := declared.deliveryIndexDense
  visibleNonDecreasing := declared.visibleNonDecreasing

/-- One sealed segment a lane contributes to a window. -/
structure SegmentInput where
  path : String
  segment : Nat
  /-- What the seal asserts; `none` when there is no seal to falsify. -/
  claims : Option SegmentClaims

/-- What the records of one segment actually turned out to be. -/
structure SegmentTally where
  firstVisibleNs : Option Nat := none
  lastVisibleNs : Option Nat := none
  firstDeliveryIndex : Option Nat := none
  lastDeliveryIndex : Option Nat := none
  count : Nat := 0
deriving DecidableEq

/-- The tally with one more record. -/
def SegmentTally.observe (seen : SegmentTally) (record : LaneRecord) : SegmentTally where
  firstVisibleNs := if seen.count = 0 then some record.visibleNs else seen.firstVisibleNs
  lastVisibleNs := some record.visibleNs
  firstDeliveryIndex :=
    if seen.count = 0 then some record.deliveryIndex else seen.firstDeliveryIndex
  lastDeliveryIndex := some record.deliveryIndex
  count := seen.count + 1

/-- `{:?}` of an `Option<u64>`. -/
def debugOption : Option Nat → String
  | none => "None"
  | some n => "Some(" ++ toString n ++ ")"

/-- Reconciles what a segment held with what its seal claimed, when its last line has been read. -/
def closeSegment (segment : SegmentInput) (seen : SegmentTally) : Except Halt Unit :=
  match segment.claims with
  | none => pure ()
  | some claims => do
    let name := fileName segment.path
    let agree (label : String) (claimed actual : Option Nat) :=
      refuse (claimed ≠ actual) (name ++ ": seal claims " ++ label ++ " " ++ debugOption claimed ++
        ", records say " ++ debugOption actual)
    refuse (seen.count ≠ claims.lineCount) (name ++ ": holds " ++ toString seen.count ++
      " records, sealed as " ++ toString claims.lineCount)
    agree "first_visible_ns" claims.firstVisibleNs seen.firstVisibleNs
    agree "last_visible_ns" claims.lastVisibleNs seen.lastVisibleNs
    agree "first_delivery_index" claims.firstDeliveryIndex seen.firstDeliveryIndex
    agree "last_delivery_index" claims.lastDeliveryIndex seen.lastDeliveryIndex

/-- The clock of a record against the seal of its segment. -/
def checkClock (claims : SegmentClaims) (seen : SegmentTally) (position : String)
    (record : LaneRecord) : Except Halt Unit := do
  refuse (record.visibleNs < claims.windowStartNs || record.visibleNs ≥ claims.windowEndNs)
    (position ++ ": visible_ns " ++ toString record.visibleNs ++ " is outside the sealed window " ++
      toString claims.windowStartNs ++ ".." ++ toString claims.windowEndNs)
  match seen.lastVisibleNs with
  | some previous =>
    refuse (claims.visibleNonDecreasing && record.visibleNs < previous)
      (position ++ ": visible_ns " ++ toString record.visibleNs ++ " follows " ++
        toString previous ++ ", but the seal declares visible_non_decreasing")
  | none => pure ()

/-- Its index, where the seal declares the indices dense. -/
def checkIndex (mode : Arithmetic) (claims : SegmentClaims) (seen : SegmentTally)
    (position : String) (record : LaneRecord) : Except Halt Unit :=
  if claims.deliveryIndexDense then
    match seen.lastDeliveryIndex with
    | some previous => do
      let next ← mode.add previous 1
      refuse (record.deliveryIndex ≠ next)
        (position ++ ": delivery_index " ++ toString record.deliveryIndex ++ " does not follow " ++
          toString previous ++ ", but the seal declares delivery_index_dense")
    | none => pure ()
  else pure ()

/-- The checks of one record against the seal of its segment. -/
def checkRecord (mode : Arithmetic) (claims : SegmentClaims) (seen : SegmentTally)
    (position : String) (record : LaneRecord) : Except Halt Unit := do
  checkClock claims seen position record
  checkIndex mode claims seen position record
  refuse (seen.count + 1 > claims.lineCount)
    (position ++ ": more records than the seal's line_count of " ++ toString claims.lineCount)

/-! ## The reader -/

/-- What reading needs from outside. -/
structure ReadEnv where
  mode : Arithmetic
  json : SerdeJson
  hash : String → ContentHash
  /-- `File::open`. -/
  disk : String → Except String Source

structure LaneReader where
  lane : Nat
  segments : List SegmentInput
  current : Option (SegmentInput × Source) := none
  lineNumber : Nat := 0
  finished : Bool := false
  /-- The running reconciliation of the open segment against its seal. -/
  seen : SegmentTally := {}

/-- The record on a line of a segment. -/
def parseLine (env : ReadEnv) (lane : Nat) (segment : SegmentInput) (lineNumber : Nat)
    (line : List UInt8) : Except Halt LaneRecord := do
  refuse (line.getLast? ≠ some 10) (segment.path ++ ":" ++ toString lineNumber ++
    ": sealed segment ends without a newline")
  match EnvelopeView.parse env.json line with
  | .error error => .error (.err (fileName segment.path ++ ":" ++ toString lineNumber ++ ": " ++
      error.text))
  | .ok view => return {
      visibleNs := view.visibleNs
      deliveryIndex := view.deliveryIndex
      source := ⟨lane, segment.segment, lineNumber⟩
      recordId := view.recordId
      contentHash := (env.hash view.rawPayload).toHex
      line := line
      index_lt := view.index_lt }

/-- A line of the open segment, read and reconciled. -/
def acceptLine (env : ReadEnv) (lane : Nat) (segment : SegmentInput) (seen : SegmentTally)
    (lineNumber : Nat) (line : List UInt8) : Except Halt LaneRecord := do
  let record ← parseLine env lane segment lineNumber line
  match segment.claims with
  | some claims =>
    checkRecord env.mode claims seen (fileName segment.path ++ ":" ++ toString lineNumber) record
    return record
  | none => return record

/-- An error of the system, with what was being done. -/
def orHalt {α : Type} (x : Except String α) (action path : String) : Except Halt α :=
  match x with
  | .ok a => .ok a
  | .error error => .error (.err (action ++ " " ++ path ++ ": " ++ error))

namespace LaneReader

def new (lane : Nat) (segments : List SegmentInput) : LaneReader := { lane, segments }

def readLine (env : ReadEnv) (r : LaneReader) : Except Halt (Option LaneRecord × LaneReader) :=
  match _hcurrent : r.current with
  | none =>
    match _hsegments : r.segments with
    | [] => pure (none, r)
    | segment :: segments => do
      let source ← orHalt (env.disk segment.path) "opening" segment.path
      readLine env { r with
        segments := segments, current := some (segment, source), lineNumber := 0, seen := {} }
  | some (segment, source) => do
    let (line, source) ← orHalt source.readLine "reading" segment.path
    if line.isEmpty then
      closeSegment segment r.seen
      readLine env { r with current := none }
    else
      let record ← acceptLine env r.lane segment r.seen (r.lineNumber + 1) line
      return (some record, { r with
        current := some (segment, source)
        lineNumber := r.lineNumber + 1
        seen := r.seen.observe record })
termination_by 2 * r.segments.length + if r.current.isSome then 1 else 0
decreasing_by
  · simp only [_hcurrent, _hsegments, List.length_cons, Option.isSome_some, Option.isSome_none]
    simp
    omega
  · simp [_hcurrent]

/-- `Iterator::next`. Behind a fault the reader yields nothing more, whatever it holds. -/
def next (env : ReadEnv) (r : LaneReader) :
    Except Halt (Option (Except String LaneRecord) × LaneReader) :=
  if r.finished then pure (none, r)
  else
    match r.readLine env with
    | .ok (some record, r) => pure (some (.ok record), r)
    | .ok (none, r) => pure (none, { r with finished := true })
    | .error (.err error) => pure (some (.error error), { r with finished := true })
    | .error .panic => .error .panic

end LaneReader

end PredictionIndexer.Finalize
