import PredictionIndexer.Engine.Tape

/-!
# The reader of a pinned derivative

`engine/crates/materialize/src/reader.rs` reads the private snapshot of one derivative in a
single pass. A delivery is checked against its predecessors before it is returned
(`DeliveryChecks.observe`), and the window as a whole once the files end
(`DeliveryChecks.finish`).

Decoding the three files and joining their lines by canonical sequence is below this module: a
`Snapshot` holds what each join comes to, a delivery or the error it stops with.
-/

namespace PredictionIndexer.Engine

open Fallible

structure ReadLimits where
  maxMetadataBytes : Nat := 1024 * 1024
  maxLineBytes : Nat := 16 * 1024 * 1024
  maxSnapshotBytes : Nat := 8 * 1024 * 1024 * 1024
  maxGroupBytes : Nat := 64 * 1024 * 1024
  maxGroupRecords : Nat := 100000
  maxWindows : Nat := 4096
  maxScopeEntries : Nat := 100000
  maxLanes : Nat := 1024

/-- An early return with an error. -/
def failIf (condition : Bool) (message : String) : Except Halt Unit :=
  if condition then .error (.err message) else .ok ()

/-- `ReadLimits::validate`. -/
def ReadLimits.validate (l : ReadLimits) : Except Halt Unit :=
  failIf (l.maxMetadataBytes = 0 || l.maxLineBytes = 0 || l.maxLineBytes = u64Max ||
    l.maxMetadataBytes = u64Max || l.maxSnapshotBytes = 0 || l.maxGroupBytes = 0 ||
    l.maxGroupRecords = 0 || l.maxWindows = 0 || l.maxScopeEntries = 0 || l.maxLanes = 0)
    "read limits must be positive and bounded"

/-- `add_size`. -/
def addSize (total amount maximum : Nat) : Except Halt Nat :=
  okOr ((checkedAdd total amount).filter (· ≤ maximum)) "read resource limit exceeded"

/-- `i64::checked_add(1)`. -/
def checkedSucc (a : Int) : Option Int :=
  if a + 1 < 2 ^ 63 then some (a + 1) else none

theorem checkedSucc_eq_some {a b : Int} (h : checkedSucc a = some b) : b = a + 1 := by
  unfold checkedSucc at h
  split at h
  · exact (Option.some.inj h).symm
  · cases h

/-- The coverage of a source receipt with the totals the last check compares. -/
structure BoundCoverage extends CoverageEvidence where
  sequence : Option Int × Option Int
  records : Nat
deriving DecidableEq

/-- Verified metadata only; this is not a capability to read trusted events. -/
structure DerivativeMetadata where
  pin : DerivativePin
  effectiveStartNs : Nat
  effectiveEndNs : Nat
  inputRecords : Nat
  coverage : Option BoundCoverage
  metadataBytes : Nat
deriving DecidableEq

/-- A source delivery with the sizes that its group is charged for. -/
structure MeasuredDelivery extends SourceDelivery where
  logicalBytes : Nat
  recordCount : Nat
deriving DecidableEq

/-! ## The checks across deliveries -/

/-- Source-level ordering, window, lane, tie and coverage checks, kept as scalar state across
    deliveries. -/
structure DeliveryChecks where
  previous : Option EventHeader := none
  firstSeq : Option Int := none
  runFirst : Option EventHeader := none
  crossLane : Bool := false
  runBytes : Nat := 0
  runRecords : Nat := 0
  laneDeliveries : Std.ExtTreeMap LaneId Nat := ∅
  laneCounts : Std.ExtTreeMap LaneId Nat := ∅
  firstVisible : Std.ExtTreeMap LaneId Nat := ∅
  laneBytes : Nat := 0

/-- `validate_tie`: a run is tagged with its time exactly when it spans lanes. -/
def validateTie (first : EventHeader) (crossLane : Bool) : Except Halt Unit :=
  if first.visibleTieGroup ≠ (if crossLane then some first.visibleNs else none) then
    .error (.err "tie group disagrees with complete equal-time source run")
  else
    .ok ()

namespace DeliveryChecks

/-- The first delivery of a lane takes room for the lane. -/
def admitLane (c : DeliveryChecks) (h : EventHeader) (limits : ReadLimits) :
    Except Halt DeliveryChecks :=
  if c.laneDeliveries.contains h.address.lane then
    .ok c
  else if c.laneDeliveries.size = limits.maxLanes then
    .error (.err "lane count exceeds read limit")
  else do
    let bytes ← addSize c.laneBytes h.address.lane.val.utf8ByteSize limits.maxMetadataBytes
    pure { c with
      firstVisible := c.firstVisible.insert h.address.lane h.visibleNs
      laneBytes := bytes }

/-- The lane half of `observe`. -/
def observeLane (c : DeliveryChecks) (h : EventHeader) (limits : ReadLimits) :
    Except Halt DeliveryChecks := do
  let lane := h.address.lane
  let count ← okOr (checkedAdd (c.laneCounts[lane]?.getD 0) 1) "source lane count overflow"
  let c := { c with laneCounts := c.laneCounts.insert lane count }
  let known := c.laneDeliveries[lane]?
  let c ← c.admitLane h limits
  if known.any (h.address.deliveryIndex ≤ ·) then
    .error (.err "source delivery index repeats or decreases within lane")
  else
    pure { c with laneDeliveries := c.laneDeliveries.insert lane h.address.deliveryIndex }

/-- The window and the predecessor of a delivery. -/
def observeOrder (c : DeliveryChecks) (h : EventHeader) (m : DerivativeMetadata) :
    Except Halt Unit :=
  if h.visibleNs < m.effectiveStartNs || m.effectiveEndNs ≤ h.visibleNs then
    .error (.err "source timestamp outside derivative window")
  else
    match c.previous with
    | none => .ok ()
    | some p =>
      if checkedSucc p.address.canonicalSeq ≠ some h.address.canonicalSeq then
        .error (.err "source canonical sequence is not dense")
      else if h.visibleNs < p.visibleNs then
        .error (.err "source timestamps decrease")
      else
        .ok ()

/-- The equal-time run before the delivery ends when the time moves on. -/
def closeRun (c : DeliveryChecks) (h : EventHeader) : Except Halt DeliveryChecks :=
  match c.runFirst with
  | none => .ok c
  | some first =>
    if first.visibleNs ≠ h.visibleNs then do
      validateTie first c.crossLane
      pure { c with runFirst := none }
    else
      .ok c

/-- A run that is already cross-lane can only be valid tagged with its time, so this fails at
    the delivery that makes it one and not at the end of the run. -/
def joinRun (c : DeliveryChecks) (h : EventHeader) : Except Halt DeliveryChecks :=
  match c.runFirst with
  | none => .ok { c with runFirst := some h, crossLane := false, runBytes := 0, runRecords := 0 }
  | some first =>
    if first.visibleTieGroup ≠ h.visibleTieGroup then
      .error (.err "inconsistent equal-time tie tags")
    else do
      let crossLane := c.crossLane || first.address.lane ≠ h.address.lane
      (if crossLane then validateTie first true else .ok ())
      pure { c with crossLane := crossLane }

/-- The sizes of a tagged run. -/
def chargeRun (c : DeliveryChecks) (d : MeasuredDelivery) (limits : ReadLimits) :
    Except Halt DeliveryChecks :=
  if d.header.visibleTieGroup.isSome then do
    let bytes ← addSize c.runBytes d.logicalBytes limits.maxGroupBytes
    let records ← addSize c.runRecords d.recordCount limits.maxGroupRecords
    pure { c with runBytes := bytes, runRecords := records }
  else
    .ok c

/-- `DeliveryChecks::observe`. -/
def observe (c : DeliveryChecks) (d : MeasuredDelivery) (m : DerivativeMetadata)
    (limits : ReadLimits) : Except Halt DeliveryChecks := do
  let h := d.header
  let c := { c with firstSeq := c.firstSeq.or (some h.address.canonicalSeq) }
  let c ← c.observeLane h limits
  c.observeOrder h m
  let c ← c.closeRun h
  let c ← c.joinRun h
  let c ← c.chargeRun d limits
  pure { c with previous := some h }

/-- The counts of the lanes that the coverage calls present, taken out one by one. -/
def settleLanes (counts : Std.ExtTreeMap LaneId Nat) (lanes : List (LaneId × LaneCoverage)) :
    Except Halt (Std.ExtTreeMap LaneId Nat) :=
  lanes.foldlM (fun counts (lane, status) =>
    match status.state with
    | .present records =>
      if counts[lane]?.getD 0 ≠ records then
        .error (.err "source lane count disagrees with coverage")
      else
        .ok (counts.erase lane)
    | _ => .ok counts) counts

/-- `CoverageEvidence` against what was read. -/
def settleCoverage (c : DeliveryChecks) (inputRecords : Nat) (coverage : BoundCoverage) :
    Except Halt Unit := do
  failIf (coverage.sequence ≠ (c.firstSeq, c.previous.map (·.address.canonicalSeq)))
    "source sequence disagrees with coverage"
  failIf (coverage.records ≠ inputRecords) "source coverage count disagrees with derivative"
  let counts ← settleLanes c.laneCounts coverage.lanes.toList
  failIf (!counts.isEmpty) "source delivery from excluded lane"
  coverage.faults.forM fun fault =>
    match fault.reason with
    | .visibleClockRegression _ observedVisibleNs =>
      failIf (c.firstVisible[fault.lane]? ≠ some observedVisibleNs)
        "source clock diagnosis disagrees with first delivery"
    | _ => .ok ()

/-- `DeliveryChecks::finish`. -/
def finish (c : DeliveryChecks) (m : DerivativeMetadata) : Except Halt Unit := do
  match c.runFirst with
  | some first => validateTie first c.crossLane
  | none => pure ()
  match m.coverage with
  | some coverage => c.settleCoverage m.inputRecords coverage
  | none => pure ()

end DeliveryChecks

/-! ## The reader -/

/-- The private snapshot of a derivative: what the joined lines of its files come to, one after
    the other, and the verdicts of their ends (identities and line counts of the two frames, the
    sidecar's own). -/
structure Snapshot where
  deliveries : List (Except Halt MeasuredDelivery)
  frames : Except Halt Unit
  sidecar : Except Halt Unit

/-- An error poisons the source's reader. Here it ends the run of whoever holds the reader, so
    there is no poisoned state. -/
structure VerifiedWindowReader where
  metadata : DerivativeMetadata
  stream : Snapshot
  checks : DeliveryChecks := {}
  exhausted : Bool := false

namespace VerifiedWindowReader

/-- `VerifiedWindowReader::next_delivery`. -/
def nextDelivery (r : VerifiedWindowReader) (limits : ReadLimits) :
    Except Halt (Option MeasuredDelivery × VerifiedWindowReader) :=
  if r.exhausted then
    .ok (none, r)
  else
    match r.stream.deliveries with
    | [] => do
      r.stream.frames
      r.checks.finish r.metadata
      r.stream.sidecar
      .ok (none, { r with exhausted := true })
    | delivery :: rest => do
      let d ← delivery
      let checks ← r.checks.observe d r.metadata limits
      .ok (some d, { r with stream := { r.stream with deliveries := rest }, checks := checks })

/-- `VerifiedWindowReader::finish`. -/
def finish (r : VerifiedWindowReader) : Except Halt Unit :=
  if r.exhausted then .ok ()
  else .error (.err "derivative reader requires verified EOF before finish")

end VerifiedWindowReader

end PredictionIndexer.Engine
