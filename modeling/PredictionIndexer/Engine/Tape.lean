import PredictionIndexer.Engine.Domain
import PredictionIndexer.ForStd.Result

/-!
# The derivative walker's items and its scope filter

`engine/crates/tape` turns pinned derivatives into a stream of window statuses and atomic
groups. This module has the items themselves, the coverage evidence a window status carries
(`engine/crates/materialize/src/evidence.rs`), and the walker's `filter`, which decides what
of a source delivery enters a group.
-/

namespace PredictionIndexer.Engine

open Fallible

/-- The pinned derivative a record was read from. -/
structure DerivativePin where
  derivativeAddress : String
  receiptSha256 : String
deriving DecidableEq

/-! ## Coverage -/

inductive LaneState where
  | notExpected
  | present (records : Nat)
  | missing
  | invalid (detail : Option String)
deriving DecidableEq

structure LaneCoverage where
  expected : Bool
  state : LaneState
deriving DecidableEq

inductive SourceFaultReason where
  | laneMissing
  | laneInvalid (detail : Option String)
  | visibleClockRegression (previousVisibleNs observedVisibleNs : Nat)
deriving DecidableEq

structure SourceFault where
  lane : LaneId
  reason : SourceFaultReason
deriving DecidableEq

structure CoverageEvidence where
  lanes : Std.ExtTreeMap LaneId LaneCoverage
  faults : List SourceFault
deriving DecidableEq

/-- `CoverageEvidence::lane`: a lane the receipt does not name is not expected. -/
def CoverageEvidence.lane (c : CoverageEvidence) (lane : LaneId) : LaneCoverage :=
  c.lanes[lane]?.getD ⟨false, .notExpected⟩

/-- What the walker reports when it enters a window. -/
structure WindowStatus where
  pin : DerivativePin
  effectiveStartNs : Nat
  effectiveEndNs : Nat
  coverage : Option CoverageEvidence

/-! ## Deliveries and groups -/

inductive RejectDisposition where
  | parseReject (impact : FaultImpact)
  | intentionallyIgnored
deriving DecidableEq

/-- `same_source`: a normalized child differs from its source in the event index only. -/
def sameSource (a b : EventHeader) : Bool :=
  a.orderNs = b.orderNs && a.visibleNs = b.visibleNs && a.visibleTieGroup = b.visibleTieGroup &&
    a.continuity = b.continuity &&
    { a.address with eventIndex := b.address.eventIndex } = b.address

/-- One source delivery with its normalized children, each checked against the source header
    when the derivative is read. -/
structure SourceDelivery where
  header : EventHeader
  connectionEpoch : Option String
  records : List SegmentRecord
  disposition : Option RejectDisposition
  same : records.all (sameSource header ·.header) = true
deriving DecidableEq

structure FilteredDelivery where
  header : EventHeader
  connectionEpoch : Option String
  records : List SegmentRecord
  disposition : Option RejectDisposition
deriving DecidableEq

/-- Original unfiltered source span; children keep original event indexes. -/
structure AtomicGroup where
  pin : DerivativePin
  first : EventAddress
  last : EventAddress
  visibleNs : Nat
  tie : Option Nat
  deliveries : List FilteredDelivery
deriving DecidableEq

inductive WalkItem where
  | windowStatus (status : WindowStatus)
  | group (group : AtomicGroup)

/-! ## The scope filter -/

/-- Explicit resolver inputs. No inference from lane names or prior messages. -/
structure ScopeFilter where
  instruments : Std.ExtTreeSet InstrumentId
  lanes : Std.ExtTreeSet LaneId

namespace ScopeFilter

def impact (scope : ScopeFilter) : FaultImpact → Bool
  | .instrument id => scope.instruments.contains id
  | .requestedVenueBooks venue => scope.instruments.toList.any (·.venue == venue)
  | .auditCoverageOnly venue => scope.instruments.toList.any (·.venue == venue)
  | .unattributedLane _ => true

def event (scope : ScopeFilter) (record : SegmentRecord) : Bool :=
  match record.event with
  | .book (.full book) => scope.instruments.contains book.instrument
  | .book (.delta delta) => scope.instruments.contains delta.instrument
  | .trade trade => scope.instruments.contains trade.instrument
  | .auditAnchor instrument => scope.instruments.contains instrument
  | .control _ => scope.lanes.contains record.header.address.lane
  | .normalizationFault fault => scope.impact fault

/-- Verdicts that are state-bearing for the lane even without any child in scope. -/
def laneFault (scope : ScopeFilter) (h : EventHeader) : Bool :=
  scope.lanes.contains h.address.lane &&
    match h.continuity with
    | .conflict | .gapProven | .cursorWentBackwards | .localCounterBroken => true
    | _ => false

/-- What of a reject's disposition stays in scope. -/
def keepDisposition (scope : ScopeFilter) (h : EventHeader) : RejectDisposition → Bool
  | .parseReject impact => scope.impact impact
  | .intentionallyIgnored => scope.lanes.contains h.address.lane

/-- The scope half of `DerivativeWalker::filter`: `none` is a scope-excluded source.

    Profile-2 source epochs are state-bearing even when every child is outside instrument
    scope, so a delivery on a planned lane stays as source-only evidence. -/
def delivery (scope : ScopeFilter) (d : SourceDelivery) : Option FilteredDelivery :=
  let records := d.records.filter scope.event
  let disposition := d.disposition.filter (scope.keepDisposition d.header)
  let sourceEpoch := d.connectionEpoch.isSome && scope.lanes.contains d.header.address.lane
  if records.isEmpty && disposition.isNone && !scope.laneFault d.header && !sourceEpoch then
    none
  else
    some ⟨d.header, d.connectionEpoch, records, disposition⟩

end ScopeFilter

/-! ## The walker's filter with its counts -/

structure WalkCounts where
  sourceDeliveries : Nat := 0
  includedSources : Nat := 0
  scopeExcludedSources : Nat := 0
  intervalExcludedSources : Nat := 0
  includedEvents : Nat := 0
  excludedEvents : Nat := 0
  rejectedSources : Nat := 0
  ignoredSources : Nat := 0
  groups : Nat := 0
deriving DecidableEq

/-- `add`: a counter with a maximum; the error names the limit. -/
def add (total count maximum : Nat) (label : String) : Except Halt Nat :=
  okOr ((checkedAdd total count).filter (· ≤ maximum))
    ("walk resource limit exceeded: " ++ label)

/-- `u64::MAX`, the maximum of every plain counter. -/
def u64Max : Nat := 2 ^ 64 - 1

namespace WalkCounts

/-- Rejected and ignored sources are counted whether or not they stay in scope. -/
def disposition (c : WalkCounts) : Option RejectDisposition → Except Halt WalkCounts
  | some (.parseReject _) => do
    let n ← add c.rejectedSources 1 u64Max "rejected sources"
    pure { c with rejectedSources := n }
  | some .intentionallyIgnored => do
    let n ← add c.ignoredSources 1 u64Max "ignored sources"
    pure { c with ignoredSources := n }
  | none => pure c

/-- A delivery outside of the requested interval. -/
def outside (c : WalkCounts) (d : SourceDelivery) : Except Halt WalkCounts := do
  let n ← add c.intervalExcludedSources 1 u64Max "interval excluded sources"
  let m ← add c.excludedEvents d.records.length u64Max "excluded events"
  pure { c with intervalExcludedSources := n, excludedEvents := m }

/-- The events of a delivery inside the interval, and whether its source stays. -/
def inside (c : WalkCounts) (d : SourceDelivery) (included : Nat) (kept : Bool) :
    Except Halt WalkCounts := do
  let n ← add c.includedEvents included u64Max "included events"
  let m ← add c.excludedEvents (d.records.length - included) u64Max "excluded events"
  let c := { c with includedEvents := n, excludedEvents := m }
  if kept then
    let n ← add c.includedSources 1 u64Max "included sources"
    pure { c with includedSources := n }
  else
    let n ← add c.scopeExcludedSources 1 u64Max "scope excluded sources"
    pure { c with scopeExcludedSources := n }

end WalkCounts

/-- `DerivativeWalker::filter`: counts the delivery, then excludes it by interval, by scope,
    or keeps what is in scope of it. -/
def walkerFilter (scope : ScopeFilter) (effectiveStartNs endNs : Nat) (c : WalkCounts)
    (d : SourceDelivery) : Except Halt (WalkCounts × Option FilteredDelivery) := do
  let n ← add c.sourceDeliveries 1 u64Max "source deliveries"
  let c ← { c with sourceDeliveries := n }.disposition d.disposition
  if d.header.visibleNs < effectiveStartNs || endNs ≤ d.header.visibleNs then
    let c ← c.outside d
    pure (c, none)
  else
    let c ← c.inside d (d.records.filter scope.event).length (scope.delivery d).isSome
    pure (c, scope.delivery d)

end PredictionIndexer.Engine
