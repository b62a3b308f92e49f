import PredictionIndexer.ForStd.Order

/-!
# Replay domain values

The venue-independent values of `engine/crates/domain`: fixed-point prices and quantities,
instrument and lane identities, book events and the other normalized events of a segment.

Every type that the source validates at construction carries the validated fact as a field,
so an out-of-range price or an unordered full book is not a value here either. Fields that
no modelled function reads (record identifiers, source digests, the payloads of most control
events) are left out.
-/

namespace PredictionIndexer.Engine

/-! ## Numbers -/

/-- Maximum decimal exponent supported by the fixed-point boundary. -/
def maxDecimalScale : Nat := 18

/-- Quantities keep the signed 64-bit logical width: `i64::MAX`. -/
def maxQuantityAtoms : Nat := 2 ^ 63 - 1

/-- Number of decimal digits represented by one integer atom. -/
structure DecimalScale where
  exponent : Nat
  exponent_le : exponent ≤ maxDecimalScale
deriving DecidableEq

inductive PriceUnit where
  | quotePerContract
deriving DecidableEq

inductive QuantityUnit where
  | contracts
deriving DecidableEq

/-- Exact nonnegative price in `10 ^ -scale` quote units per contract. -/
structure Px where
  atoms : Int
  scale : DecimalScale
  unit : PriceUnit
  nonneg : 0 ≤ atoms
deriving DecidableEq

/-- Exact conditional-market price in the inclusive interval `[0, 1]`. -/
structure ConditionalMarketPrice where
  px : Px
  le_one : px.atoms ≤ 10 ^ px.scale.exponent
deriving DecidableEq

namespace ConditionalMarketPrice

def atoms (p : ConditionalMarketPrice) : Int := p.px.atoms

def scale (p : ConditionalMarketPrice) : DecimalScale := p.px.scale

theorem atoms_nonneg (p : ConditionalMarketPrice) : 0 ≤ p.atoms := p.px.nonneg

theorem atoms_le (p : ConditionalMarketPrice) : p.atoms ≤ 10 ^ p.scale.exponent := p.le_one

end ConditionalMarketPrice

/-- Exact nonnegative quantity in `10 ^ -scale` contracts. -/
structure Qty where
  atoms : Nat
  scale : DecimalScale
  unit : QuantityUnit
  atoms_le : atoms ≤ maxQuantityAtoms
deriving DecidableEq

/-- A quantity proven nonzero at construction. -/
structure PositiveQty where
  qty : Qty
  pos : 0 < qty.atoms
deriving DecidableEq

namespace PositiveQty

def atoms (q : PositiveQty) : Nat := q.qty.atoms

def scale (q : PositiveQty) : DecimalScale := q.qty.scale

theorem atoms_pos (q : PositiveQty) : 0 < q.atoms := q.pos

theorem atoms_le (q : PositiveQty) : q.atoms ≤ maxQuantityAtoms := q.qty.atoms_le

end PositiveQty

/-! ## Identities -/

/-- `char::is_control`: the Unicode general category `Cc`. -/
def isControl (c : Char) : Bool :=
  c.toNat < 0x20 || (0x7f ≤ c.toNat && c.toNat < 0xa0)

/-- `validate_text`: nonempty and free of control characters. -/
def validText (s : String) : Bool :=
  s ≠ "" && s.toList.all fun c => !isControl c

/-- `str::split_once(':')`. -/
def splitOnceColon (s : String) : Option (String × String) :=
  match s.toList.span (· ≠ ':') with
  | (_, []) => none
  | (venue, _ :: native) => some (String.ofList venue, String.ofList native)

/-- The checks of `InstrumentId::new` past `validate_text`: one nonempty part on either side
    of the first colon. -/
def validInstrument (s : String) : Bool :=
  match splitOnceColon s with
  | some (venue, native) => venue ≠ "" && native ≠ ""
  | none => false

structure LaneId where
  val : String
  valid : validText val = true
deriving DecidableEq

structure InstrumentId where
  val : String
  valid : validText val = true
  split : validInstrument val = true
deriving DecidableEq

/-- The venue in front of the first colon. `split` makes the source's `unwrap` total. -/
def InstrumentId.venue (i : InstrumentId) : String :=
  match splitOnceColon i.val with
  | some (venue, _) => venue
  | none => ""

theorem LaneId.val_injective : Function.Injective LaneId.val := by
  rintro ⟨a, _⟩ ⟨b, _⟩ h
  simpa using h

theorem InstrumentId.val_injective : Function.Injective InstrumentId.val := by
  rintro ⟨a, _, _⟩ ⟨b, _, _⟩ h
  simpa using h

instance : Ord LaneId := ⟨compareOn LaneId.val⟩
instance : Std.TransOrd LaneId := inferInstanceAs (Std.TransCmp (compareOn LaneId.val))
instance : Std.LawfulEqOrd LaneId := Std.lawfulEqCmp_compareOn _ LaneId.val_injective

instance : Ord InstrumentId := ⟨compareOn InstrumentId.val⟩
instance : Std.TransOrd InstrumentId :=
  inferInstanceAs (Std.TransCmp (compareOn InstrumentId.val))
instance : Std.LawfulEqOrd InstrumentId :=
  Std.lawfulEqCmp_compareOn _ InstrumentId.val_injective

/-- Whether prices refer to the named outcome or its logical complement. -/
inductive ContractOrientation where
  | outcome
  | complement
deriving DecidableEq

/-- Declaration order, as the derived Rust `Ord` has it. -/
def ContractOrientation.index : ContractOrientation → Nat
  | .outcome => 0
  | .complement => 1

theorem ContractOrientation.index_injective : Function.Injective ContractOrientation.index := by
  rintro (_ | _) (_ | _) h <;> first | rfl | cases h

instance : Ord ContractOrientation := ⟨compareOn ContractOrientation.index⟩
instance : Std.TransOrd ContractOrientation :=
  inferInstanceAs (Std.TransCmp (compareOn ContractOrientation.index))
instance : Std.LawfulEqOrd ContractOrientation :=
  Std.lawfulEqCmp_compareOn _ ContractOrientation.index_injective

/-- Identity of a captured ladder. -/
structure BookKey where
  instrument : InstrumentId
  orientation : ContractOrientation
deriving DecidableEq

instance : Ord BookKey :=
  ⟨compareLex (compareOn BookKey.instrument) (compareOn BookKey.orientation)⟩
instance : Std.TransOrd BookKey :=
  inferInstanceAs
    (Std.TransCmp (compareLex (compareOn BookKey.instrument) (compareOn BookKey.orientation)))
instance : Std.LawfulEqOrd BookKey :=
  Std.lawfulEqCmp_compareLex_compareOn _ _ (by
    rintro ⟨i, o⟩ ⟨i', o'⟩ hi ho
    cases hi; cases ho; rfl)

/-! ## Book events -/

inductive Side where
  | bid
  | ask
deriving DecidableEq

structure Level where
  price : ConditionalMarketPrice
  quantity : PositiveQty
deriving DecidableEq

/-- A venue's own digest of a book, hexadecimal SHA-1. -/
structure BookStateHash where
  digest : String
deriving DecidableEq

inductive Resolution where
  | millisecond
  | microsecond
deriving DecidableEq

inductive EventKind where
  | exchangeEvent
  | bookUpdate
  | tradeReport
  | bookAsOf
deriving DecidableEq

/-- Venue clock evidence only; never an ordering or book-validity input. -/
structure VenueTime where
  eventNs : Option Nat
  eventResolution : Option Resolution
  eventKind : Option EventKind
  sentNs : Option Nat
  coherent : (eventNs.isSome = eventResolution.isSome ∧ eventNs.isSome = eventKind.isSome) ∧
    (eventNs.isSome ∨ sentNs.isSome)
deriving DecidableEq

/-- `validate_level_scales`: every level is at the scales of the first one. -/
def validLevelScales (bids asks : List Level) : Bool :=
  match bids ++ asks with
  | [] => true
  | first :: rest => rest.all fun level =>
      level.price.scale = first.price.scale && level.quantity.scale = first.quantity.scale

/-- `validate_order`: strictly descending bids, strictly ascending asks. -/
def validOrder (side : Side) (levels : List Level) : Bool :=
  (levels.zip levels.tail).all fun (a, b) =>
    match side with
    | .bid => b.price.atoms < a.price.atoms
    | .ask => a.price.atoms < b.price.atoms

structure FullBook where
  instrument : InstrumentId
  orientation : ContractOrientation
  bids : List Level
  asks : List Level
  snapshotHash : Option BookStateHash
  sourceObservedNs : Option Nat
  venueTime : Option VenueTime
  scales : validLevelScales bids asks = true
  bidOrder : validOrder .bid bids = true
  askOrder : validOrder .ask asks = true
deriving DecidableEq

def FullBook.bookKey (b : FullBook) : BookKey := ⟨b.instrument, b.orientation⟩

/-- A complete, direction-explicit instruction for one book level. -/
inductive LevelChange where
  | set (q : PositiveQty)
  | delete
  | increase (q : PositiveQty)
  | decrease (q : PositiveQty)
deriving DecidableEq

structure BookDelta where
  instrument : InstrumentId
  orientation : ContractOrientation
  side : Side
  price : ConditionalMarketPrice
  change : LevelChange
  bookHash : Option BookStateHash
  venueTime : Option VenueTime
deriving DecidableEq

def BookDelta.bookKey (d : BookDelta) : BookKey := ⟨d.instrument, d.orientation⟩

inductive BookEvent where
  | full (book : FullBook)
  | delta (delta : BookDelta)
deriving DecidableEq

/-- `book_key` of the risk crate. -/
def BookEvent.bookKey : BookEvent → BookKey
  | .full b => b.bookKey
  | .delta d => d.bookKey

structure TradeEvent where
  instrument : InstrumentId
  orientation : ContractOrientation
  price : ConditionalMarketPrice
  quantity : PositiveQty
  aggressor : Option Side
  venueTime : Option VenueTime
deriving DecidableEq

/-! ## The other events of a segment -/

inductive ControlEvent where
  | connectionOpened
  | connectionClosed
  | connectionFailed
  | subscriptionChanged
  | metadataChanged (source : Option String) (target : String)
deriving DecidableEq

inductive FaultImpact where
  | instrument (id : InstrumentId)
  | requestedVenueBooks (venue : String)
  | auditCoverageOnly (venue : String)
  | unattributedLane (lane : LaneId)
deriving DecidableEq

inductive ContinuityVerdict where
  | lifecycle
  | bootstrap
  | unsequencedVenue
  | sparseMonotonic
  | continuous
  | gapProven
  | cursorWentBackwards
  | localCounterBroken
  | duplicate
  | conflict
deriving DecidableEq

structure EventAddress where
  canonicalSeq : Int
  lane : LaneId
  deliveryIndex : Nat
  eventIndex : Nat
  seq_pos : 0 < canonicalSeq
deriving DecidableEq

structure EventHeader where
  orderNs : Nat
  visibleNs : Nat
  visibleTieGroup : Option Nat
  address : EventAddress
  continuity : ContinuityVerdict
  clocks : orderNs = visibleNs
deriving DecidableEq

inductive SegmentEvent where
  | control (event : ControlEvent)
  | book (event : BookEvent)
  | auditAnchor (instrument : InstrumentId)
  | normalizationFault (impact : FaultImpact)
  | trade (event : TradeEvent)
deriving DecidableEq

structure SegmentRecord where
  header : EventHeader
  event : SegmentEvent
deriving DecidableEq

end PredictionIndexer.Engine
