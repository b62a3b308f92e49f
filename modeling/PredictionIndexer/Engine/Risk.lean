import PredictionIndexer.Engine.Tape

/-!
# The risk engine

`engine/crates/risk/src/lib.rs`: deterministic reconstruction of the planned books from the
walker's items. Each window status or atomic group stages work per book and then commits it as
one `RiskCut`.

The engine's own walker is not modelled; an engine takes the items one at a time through
`nextInner`. `Arc` is dropped, `&mut self` is explicit state passing, and a `Result::Err` or a
failed `unwrap` is a `Halt`.
-/

namespace PredictionIndexer.Engine

open Fallible

/-! ## Plans, views and cuts -/

/-- Authority is independent of `BookKey`. No role is inferred from lane spelling. -/
structure BookPlan where
  key : BookKey
  lane : LaneId
  venue : String
  priceScale : DecimalScale
  quantityScale : DecimalScale
deriving DecidableEq

structure RiskLimits where
  maxBooks : Nat
  maxLevelsPerBook : Nat
  maxPlanBytes : Nat
deriving DecidableEq

/-- `RiskLimits::default`. -/
def RiskLimits.default : RiskLimits := ⟨1024, 100000, 1048576⟩

inductive Reason where
  | missingInitialization
  | epochChanged
  | connectionOpened
  | connectionClosed
  | connectionFailed
  | subscriptionChanged
  | continuity (verdict : ContinuityVerdict)
  | unsupportedState
  | scaleMismatch
  | quantityUnderflow
  | quantityOverflow
  | laneNotExpected
  | interval (reason : SourceFaultReason)
deriving DecidableEq

inductive Validity where
  | notInitialized
  | usable
  | unusable (reason : Reason)
deriving DecidableEq

/-- Exact atoms at the plan's scales. Ascending price maps; bids are read in reverse. -/
structure Ladder where
  bids : Std.ExtTreeMap Int Nat
  asks : Std.ExtTreeMap Int Nat

namespace Ladder

def side (l : Ladder) : Side → Std.ExtTreeMap Int Nat
  | .bid => l.bids
  | .ask => l.asks

def setSide (l : Ladder) (side : Side) (m : Std.ExtTreeMap Int Nat) : Ladder :=
  match side with
  | .bid => { l with bids := m }
  | .ask => { l with asks := m }

/-- `bids.len() + asks.len()`; the sizes of two maps in memory never saturate. -/
def levels (l : Ladder) : Nat := l.bids.size + l.asks.size

end Ladder

structure Reference where
  pin : DerivativePin
  address : EventAddress
  visibleNs : Nat
  orderNs : Nat
deriving DecidableEq

def Reference.new (pin : DerivativePin) (h : EventHeader) : Reference :=
  ⟨pin, h.address, h.visibleNs, h.orderNs⟩

structure Dependency where
  epoch : String
  anchor : Reference
  through : Reference
deriving DecidableEq

inductive CutOrigin where
  | window (pin : DerivativePin) (startNs endNs : Nat)
  | group (pin : DerivativePin) (first last : EventAddress) (visibleNs : Nat)
deriving DecidableEq

structure BookView where
  revision : Nat
  validity : Validity
  ladder : Option Ladder
  dependency : Option Dependency
  asOf : Option CutOrigin

/-- The view every planned book starts from. -/
def BookView.initial : BookView := ⟨0, .notInitialized, none, none, none⟩

inductive Decision where
  | snapshot (ladder : Ladder)
  | operations (ops : List BookDelta)
  | invalidation (reason : Reason)

structure BookTransition where
  key : BookKey
  previousRevision : Nat
  view : BookView
  decision : Decision

inductive Disposition where
  | observed
  | applied
  | duplicate
  | notAuthority
  | invalidated
deriving DecidableEq

inductive MarketEvent where
  | book (event : BookEvent)
  | trade (event : TradeEvent)
deriving DecidableEq

structure MarketRecord where
  reference : Reference
  event : MarketEvent
  disposition : Disposition
deriving DecidableEq

structure ControlRecord where
  reference : Reference
  source : Option String
  target : String
deriving DecidableEq

structure RiskCut where
  sequence : Nat
  origin : CutOrigin
  marketEvents : List MarketRecord
  controlEvents : List ControlRecord
  bookTransitions : List BookTransition

structure RiskEngine where
  plans : Std.ExtTreeMap BookKey BookPlan
  books : Std.ExtTreeMap BookKey BookView
  epochs : Std.ExtTreeMap LaneId String
  blocked : Std.ExtTreeMap LaneId Reason
  limits : RiskLimits
  sequence : Nat

/-! ## Opening -/

/-- One round of the plan loop of `RiskEngine::open`: the running plan size, the authority
    check and the duplicate check. -/
def planInsert (limits : RiskLimits) (s : Nat × Std.ExtTreeMap BookKey BookPlan)
    (plan : BookPlan) : Except Halt (Nat × Std.ExtTreeMap BookKey BookPlan) := do
  let bytes ← okOr
    (((checkedAdd s.1 plan.key.instrument.val.utf8ByteSize).bind
      (checkedAdd · plan.lane.val.utf8ByteSize)).bind
      (checkedAdd · plan.venue.utf8ByteSize)) "plan size overflow"
  if limits.maxPlanBytes < bytes || plan.key.instrument.venue ≠ plan.venue then
    .error (.err "invalid risk authority or plan limit")
  else if s.2.contains plan.key then
    .error (.err "duplicate planned book")
  else
    pure (bytes, s.2.insert plan.key plan)

namespace RiskEngine

/-- The plan half of `RiskEngine::open`. Inspecting the pinned inputs and opening the walker
    are the walker's business. -/
def openPlans (plans : List BookPlan) (limits : RiskLimits) : Except Halt RiskEngine := do
  if plans.isEmpty || limits.maxBooks < plans.length || limits.maxLevelsPerBook == 0 then
    .error (.err "invalid risk limits or plan size")
  else
    let (_, map) ← plans.foldlM (planInsert limits) (0, ∅)
    pure {
      plans := map
      books := map.map fun _ _ => BookView.initial
      epochs := ∅
      blocked := ∅
      limits := limits
      sequence := 0 }

/-- The scope filter `RiskEngine::open` hands to the walker. -/
def scope (e : RiskEngine) : ScopeFilter where
  instruments := Std.ExtTreeSet.ofList (e.plans.toList.map (·.1.instrument))
  lanes := Std.ExtTreeSet.ofList (e.plans.toList.map (·.2.lane))

def view (e : RiskEngine) (key : BookKey) : Option BookView := e.books[key]?

end RiskEngine

/-! ## Staged work -/

structure Work where
  view : BookView
  operations : List BookDelta
  full : Bool
  latched : Bool

namespace Work

def new (view : BookView) : Work := ⟨view, [], false, false⟩

/-- Drops the ladder and everything staged so far. A latched failure is final for the group. -/
def fail (w : Work) (reason : Reason) (latch : Bool) : Work :=
  if w.latched then w
  else
    { view := { w.view with validity := .unusable reason, ladder := none, dependency := none }
      operations := []
      full := false
      latched := latch }

def invalid (view : BookView) (reason : Reason) : Work := (new view).fail reason true

end Work

abbrev Staged := Std.ExtTreeMap BookKey Work

/-- `staged.entry(key).or_insert_with(|| Work::new(&books[&key]))`. -/
def entry (staged : Staged) (books : Std.ExtTreeMap BookKey BookView) (key : BookKey) :
    Except Halt Work :=
  match staged[key]? with
  | some w => .ok w
  | none => (unwrap books[key]?).map Work.new

def invalidateKey (books : Std.ExtTreeMap BookKey BookView) (reason : Reason) (latch : Bool)
    (staged : Staged) (key : BookKey) : Except Halt Staged := do
  let w ← entry staged books key
  pure (staged.insert key (w.fail reason latch))

def invalidate (staged : Staged) (books : Std.ExtTreeMap BookKey BookView)
    (keys : List BookKey) (reason : Reason) (latch : Bool) : Except Halt Staged :=
  keys.foldlM (invalidateKey books reason latch) staged

/-! ## Applying one book event to a view -/

/-- A level at other scales than the plan's. -/
def BookPlan.misscaled (plan : BookPlan) (level : Level) : Bool :=
  level.price.scale ≠ plan.priceScale || level.quantity.scale ≠ plan.quantityScale

/-- One round of the level loop of a full book. -/
def fullLevel (plan : BookPlan) (side : Std.ExtTreeMap Int Nat) (level : Level) :
    Except Reason (Std.ExtTreeMap Int Nat) :=
  if plan.misscaled level then .error .scaleMismatch
  else .ok (side.insert level.price.atoms level.quantity.atoms)

/-- One side of a full book as a price map, or the scale fault. -/
def fullSide (plan : BookPlan) (levels : List Level) : Except Reason (Std.ExtTreeMap Int Nat) :=
  levels.foldlM (fullLevel plan) ∅

/-- The quantity a change carries, if any. -/
def LevelChange.quantity : LevelChange → Option PositiveQty
  | .delete => none
  | .set q => some q
  | .increase q => some q
  | .decrease q => some q

/-- The quantity a change leaves at its level. -/
def LevelChange.new (change : LevelChange) (old : Nat) : Except Reason Nat :=
  match change with
  | .delete => .ok 0
  | .set q => .ok q.atoms
  | .increase q =>
    match (checkedAdd old q.atoms).filter (· ≤ maxQuantityAtoms) with
    | some v => .ok v
    | none => .error .quantityOverflow
  | .decrease q => if q.atoms ≤ old then .ok (old - q.atoms) else .error .quantityUnderflow

/-- Removes an emptied level, stores any other. -/
def setLevel (side : Std.ExtTreeMap Int Nat) (price : Int) (quantity : Nat) :
    Std.ExtTreeMap Int Nat :=
  if quantity = 0 then side.erase price else side.insert price quantity

def applyFull (view : BookView) (plan : BookPlan) (full : FullBook) (reference : Reference)
    (epoch : String) : Except Reason BookView := do
  let bids ← fullSide plan full.bids
  let asks ← fullSide plan full.asks
  pure { view with
    ladder := some ⟨bids, asks⟩
    validity := .usable
    dependency := some ⟨epoch, reference, reference⟩ }

/-- The delta arm of `apply`, past its guards. The two unwraps are the ones of the source. -/
def applyLevel (view : BookView) (delta : BookDelta) (reference : Reference) :
    Except Halt (Except Reason BookView) := do
  let ladder ← unwrap view.ladder
  let side := ladder.side delta.side
  match delta.change.new (side[delta.price.atoms]?.getD 0) with
  | .error reason => pure (.error reason)
  | .ok new =>
    let dependency ← unwrap view.dependency
    pure (.ok { view with
      ladder := some (ladder.setSide delta.side (setLevel side delta.price.atoms new))
      dependency := some { dependency with through := reference } })

def applyDelta (view : BookView) (plan : BookPlan) (delta : BookDelta)
    (reference : Reference) : Except Halt (Except Reason BookView) :=
  match view.validity with
  | .notInitialized => pure (.error .missingInitialization)
  | .unusable reason => pure (.error reason)
  | .usable =>
    if delta.price.scale ≠ plan.priceScale then pure (.error .scaleMismatch)
    else if delta.change.quantity.any (·.scale ≠ plan.quantityScale) then
      pure (.error .scaleMismatch)
    else applyLevel view delta reference

/-- `apply`: the outer result is a panic, the inner one the reason the event was refused. -/
def apply (view : BookView) (plan : BookPlan) (book : BookEvent) (reference : Reference)
    (epoch : String) : Except Halt (Except Reason BookView) :=
  match book with
  | .full full => pure (applyFull view plan full reference epoch)
  | .delta delta => applyDelta view plan delta reference

/-! ## Groups -/

structure GroupState where
  epochs : Std.ExtTreeMap LaneId String
  staged : Staged
  events : List MarketRecord
  controls : List ControlRecord

/-- `events.last_mut().unwrap().disposition = ..`, right after the push of the event. -/
def setLastDisposition (events : List MarketRecord) (d : Disposition) : List MarketRecord :=
  events.modifyLast fun r => { r with disposition := d }

/-- Verdicts that break what is known about a lane. -/
def ContinuityVerdict.broken : ContinuityVerdict → Bool
  | .gapProven | .cursorWentBackwards | .localCounterBroken | .conflict => true
  | .lifecycle | .bootstrap | .unsequencedVenue | .sparseMonotonic | .continuous
  | .duplicate => false

/-- What a control event does to the books of its lane, and whether it latches. -/
def ControlEvent.reason : ControlEvent → Option (Reason × Bool)
  | .connectionOpened => some (.connectionOpened, false)
  | .connectionClosed => some (.connectionClosed, true)
  | .connectionFailed => some (.connectionFailed, true)
  | .subscriptionChanged => some (.subscriptionChanged, false)
  | .metadataChanged _ _ => none

def FilteredDelivery.lane (d : FilteredDelivery) : LaneId := d.header.address.lane

def FilteredDelivery.duplicate (d : FilteredDelivery) : Bool :=
  d.header.continuity == .duplicate

namespace RiskEngine

/-- Keys planned on a lane, in key order. -/
def relevant (e : RiskEngine) (lane : LaneId) : List BookKey :=
  (e.plans.toList.filter fun kp => kp.2.lane = lane).map (·.1)

/-- The part of a delivery that is about its source: its epoch and its verdict. -/
def source (e : RiskEngine) (d : FilteredDelivery) (epoch : String) (s : GroupState) :
    Except Halt GroupState := do
  let relevant := e.relevant d.lane
  if d.duplicate || relevant.isEmpty then
    pure s
  else
    let changed := s.epochs[d.lane]?.any (· ≠ epoch)
    let epochs := s.epochs.insert d.lane epoch
    let staged ←
      if changed then invalidate s.staged e.books relevant .epochChanged false
      else pure s.staged
    let staged ←
      if d.header.continuity.broken then
        invalidate staged e.books relevant (.continuity d.header.continuity) true
      else pure staged
    pure { s with epochs := epochs, staged := staged }

/-- Rejects an oversized Full before its maps exist, keeping scale-fault precedence. -/
def oversized (e : RiskEngine) (plan : BookPlan) (w : Work) (book : BookEvent) :
    Except Halt Work :=
  match book with
  | .delta _ => pure w
  | .full full =>
    if w.latched then pure w
    else if e.limits.maxLevelsPerBook < full.bids.length + full.asks.length then
      if (full.bids ++ full.asks).any plan.misscaled then
        pure (w.fail .scaleMismatch true)
      else
        .error (.err "risk level limit exceeded")
    else pure w

/-- Applies a book event to unlatched work; a refusal latches. -/
def applyWork (plan : BookPlan) (book : BookEvent) (reference : Reference) (epoch : String)
    (w : Work) : Except Halt Work :=
  if w.latched then pure w
  else do
    match ← apply w.view plan book reference epoch with
    | .error reason => pure (w.fail reason true)
    | .ok view =>
      match book with
      | .delta delta => pure { w with view := view, operations := w.operations ++ [delta] }
      | .full _ => pure { w with view := view, full := true }

/-- What a book event does to the work of its planned book. -/
def bookWork (e : RiskEngine) (plan : BookPlan) (lane : LaneId) (book : BookEvent)
    (reference : Reference) (epoch : String) (w : Work) : Except Halt Work := do
  let w := match e.blocked[lane]? with
    | some reason => w.fail reason true
    | none => w
  let w ← e.oversized plan w book
  let w ← applyWork plan book reference epoch w
  if w.view.ladder.any (e.limits.maxLevelsPerBook < ·.levels) then
    .error (.err "risk level limit exceeded")
  else pure w

/-- The `SegmentEvent::Book` arm. -/
def bookEvent (e : RiskEngine) (lane : LaneId) (epoch : String) (reference : Reference)
    (book : BookEvent) (s : GroupState) : Except Halt GroupState :=
  match e.plans[book.bookKey]?.filter (·.lane = lane) with
  | none => pure { s with events := setLastDisposition s.events .notAuthority }
  | some plan => do
    let w ← entry s.staged e.books book.bookKey
    let w ← e.bookWork plan lane book reference epoch w
    pure { s with
      staged := s.staged.insert book.bookKey w
      events := setLastDisposition s.events
        (if w.view.validity = .usable then .applied else .invalidated) }

/-- Keys of the lane that a normalization fault reaches. -/
def faultKeys (e : RiskEngine) (lane : LaneId) (impact : FaultImpact) : List BookKey :=
  (e.relevant lane).filter fun k =>
    match impact with
    | .instrument i => k.instrument = i
    | .requestedVenueBooks v => e.plans[k]?.any (·.venue = v)
    | .unattributedLane l => l = lane
    | .auditCoverageOnly _ => false

/-- The record's market event, if it has one. -/
def market (duplicate : Bool) (reference : Reference) : SegmentEvent → List MarketRecord
  | .book b => [⟨reference, .book b, if duplicate then .duplicate else .observed⟩]
  | .trade t => [⟨reference, .trade t, if duplicate then .duplicate else .observed⟩]
  | _ => []

/-- The record's metadata change, if it is one. -/
def metadataChange (reference : Reference) : SegmentEvent → List ControlRecord
  | .control (.metadataChanged source target) => [⟨reference, source, target⟩]
  | _ => []

/-- What a nonduplicate record does to the staged work. -/
def recordEvent (e : RiskEngine) (d : FilteredDelivery) (epoch : String)
    (reference : Reference) (event : SegmentEvent) (s : GroupState) :
    Except Halt GroupState :=
  match event with
  | .book book => e.bookEvent d.lane epoch reference book s
  | .normalizationFault impact => do
    if (e.relevant d.lane).isEmpty then pure s
    else
      let staged ← invalidate s.staged e.books (e.faultKeys d.lane impact) .unsupportedState true
      pure { s with staged := staged }
  | .control control => do
    if (e.relevant d.lane).isEmpty then pure s
    else
      match control.reason with
      | none => pure s
      | some (reason, latch) =>
        let staged ← invalidate s.staged e.books (e.relevant d.lane) reason latch
        pure { s with staged := staged }
  | .auditAnchor _ => pure s
  | .trade _ => pure s

/-- One round of the record loop. -/
def record (e : RiskEngine) (pin : DerivativePin) (d : FilteredDelivery) (epoch : String)
    (s : GroupState) (r : SegmentRecord) : Except Halt GroupState :=
  let reference := Reference.new pin r.header
  let s := { s with events := s.events ++ market d.duplicate reference r.event }
  if d.duplicate then pure s
  else
    let s := { s with controls := s.controls ++ metadataChange reference r.event }
    e.recordEvent d epoch reference r.event s

/-- One round of the delivery loop. -/
def deliver (e : RiskEngine) (pin : DerivativePin) (s : GroupState) (d : FilteredDelivery) :
    Except Halt GroupState := do
  let epoch ← okOr d.connectionEpoch "missing source epoch"
  let s ← e.source d epoch s
  d.records.foldlM (e.record pin d epoch) s

/-- Earlier accepted operations of a failed key are rolled back, and their disposition says
    so. -/
def finalDisposition (staged : Staged) (r : MarketRecord) : MarketRecord :=
  match r.event with
  | .book b =>
    if r.disposition = .applied && staged[b.bookKey]?.any (·.view.validity ≠ .usable) then
      { r with disposition := .invalidated }
    else r
  | .trade _ => r

/-! ## Committing -/

def commitWork (origin : CutOrigin) (books : Std.ExtTreeMap BookKey BookView)
    (kw : BookKey × Work) : Except Halt BookTransition := do
  let old ← unwrap books[kw.1]?
  let revision ← okOr (checkedAdd old.revision 1) "book revision overflow"
  let view := { kw.2.view with revision := revision, asOf := some origin }
  let decision ← match view.validity with
    | .usable =>
      if kw.2.full then (unwrap view.ladder).map Decision.snapshot
      else pure (.operations kw.2.operations)
    | .unusable reason => pure (.invalidation reason)
    | .notInitialized => .error (.err "internal uninitialized transition")
  pure ⟨kw.1, old.revision, view, decision⟩

def commit (e : RiskEngine) (origin : CutOrigin) (events : List MarketRecord)
    (controls : List ControlRecord) (staged : Staged) : Except Halt (RiskEngine × RiskCut) := do
  let sequence ← okOr (checkedAdd e.sequence 1) "cut sequence overflow"
  let transitions ← staged.toList.mapM (commitWork origin e.books)
  let books := transitions.foldl (fun books t => books.insert t.key t.view) e.books
  pure ({ e with books := books, sequence := sequence },
    ⟨sequence, origin, events, controls, transitions⟩)

def group (e : RiskEngine) (g : AtomicGroup) : Except Halt (RiskEngine × RiskCut) := do
  let s ← g.deliveries.foldlM (e.deliver g.pin) ⟨e.epochs, ∅, [], []⟩
  { e with epochs := s.epochs }.commit (.group g.pin g.first g.last g.visibleNs)
    (s.events.map (finalDisposition s.staged)) s.controls s.staged

/-! ## Window statuses -/

/-- Why a lane's own state blocks it. -/
def laneReason (c : LaneCoverage) : Option Reason :=
  if c.expected then
    match c.state with
    | .present _ => none
    | .missing => some (.interval .laneMissing)
    | .invalid detail => some (.interval (.laneInvalid detail))
    | .notExpected => some .laneNotExpected
  else some .laneNotExpected

/-- One round of the block loop: the lane's state, then its first fault over it. -/
def block (c : CoverageEvidence) (blocked : Std.ExtTreeMap LaneId Reason) (p : BookPlan) :
    Std.ExtTreeMap LaneId Reason :=
  let blocked := match laneReason (c.lane p.lane) with
    | some reason => blocked.insert p.lane reason
    | none => blocked
  match c.faults.find? (·.lane = p.lane) with
  | some f => blocked.insert p.lane (.interval f.reason)
  | none => blocked

/-- One round of the stage loop of `window`. -/
def stageBlocked (books : Std.ExtTreeMap BookKey BookView)
    (blocked : Std.ExtTreeMap LaneId Reason) (staged : Staged) (kp : BookKey × BookPlan) :
    Except Halt Staged :=
  match blocked[kp.2.lane]? with
  | none => pure staged
  | some reason => do
    let view ← unwrap books[kp.1]?
    pure (staged.insert kp.1 (Work.invalid view reason))

def window (e : RiskEngine) (status : WindowStatus) : Except Halt (RiskEngine × RiskCut) := do
  let coverage ← okOr status.coverage "missing source evidence"
  let blocked := (e.plans.toList.map (·.2)).foldl (block coverage) ∅
  let staged ← e.plans.toList.foldlM (stageBlocked e.books blocked) ∅
  { e with blocked := blocked }.commit
    (.window status.pin status.effectiveStartNs status.effectiveEndNs) [] [] staged

/-! ## Runs -/

/-- `next_inner` past the walker: one item, one cut. -/
def nextInner (e : RiskEngine) : WalkItem → Except Halt (RiskEngine × RiskCut)
  | .windowStatus status => e.window status
  | .group g => e.group g

/-- A run of accepted items with the cuts it emits. An error poisons the engine, so a run
    that continues has had none. -/
def run (e : RiskEngine) : List WalkItem → Except Halt (RiskEngine × List RiskCut)
  | [] => pure (e, [])
  | item :: items => do
    let (e', cut) ← e.nextInner item
    let (e'', cuts) ← e'.run items
    pure (e'', cut :: cuts)

end RiskEngine

end PredictionIndexer.Engine
