import PredictionIndexer.Engine.Domain
import PredictionIndexer.ForStd.SortByKey

/-!
# Building a full book

`engine/crates/domain/src/event/book.rs`: `FullBook::new`, which sorts the levels it is given, and
`validate`, which checks the levels of a decoded book where they stand. `BookFields` are the fields
of a `FullBook` before either has spoken.
-/

namespace PredictionIndexer.Engine

inductive DomainError where
  | scaleMismatch
  | duplicatePrice
  | nonCanonicalLevelOrder
deriving DecidableEq

/-- `validate_level_scales`. -/
def validateLevelScales (bids asks : List Level) : Except DomainError Unit :=
  if validLevelScales bids asks then .ok () else .error .scaleMismatch

/-- `reject_duplicate_prices`. -/
def rejectDuplicatePrices (levels : List Level) : Except DomainError Unit :=
  if levels.neighbours.any fun p => p.1.price.atoms = p.2.price.atoms then
    .error .duplicatePrice
  else .ok ()

/-- `validate_order`. -/
def validateOrder (levels : List Level) (side : Side) : Except DomainError Unit := do
  rejectDuplicatePrices levels
  if levels.neighbours.any fun p =>
      match side with
      | .bid => p.1.price.atoms ≤ p.2.price.atoms
      | .ask => p.1.price.atoms ≥ p.2.price.atoms then
    .error .nonCanonicalLevelOrder
  else .ok ()

structure BookFields where
  instrument : InstrumentId
  orientation : ContractOrientation
  bids : List Level
  asks : List Level
  snapshotHash : Option BookStateHash
  sourceObservedNs : Option Nat
  venueTime : Option VenueTime
deriving DecidableEq

namespace BookFields

/-- `FullBook::new`. -/
def new (instrument : InstrumentId) (orientation : ContractOrientation) (bids asks : List Level)
    (snapshotHash : Option BookStateHash) (sourceObservedNs : Option Nat) :
    Except DomainError BookFields := do
  validateLevelScales bids asks
  -- `Reverse` of the price is the price in the dual order
  let bids := bids.sortByKey fun level => OrderDual.toDual level.price.atoms
  let asks := asks.sortByKey fun level => level.price.atoms
  rejectDuplicatePrices bids
  rejectDuplicatePrices asks
  return { instrument, orientation, bids, asks, snapshotHash, sourceObservedNs, venueTime := none }

def withVenueTime (b : BookFields) (time : Option VenueTime) : BookFields :=
  { b with venueTime := time }

def validate (b : BookFields) : Except DomainError Unit := do
  validateLevelScales b.bids b.asks
  validateOrder b.bids .bid
  validateOrder b.asks .ask

end BookFields

/-- The fields of a book. -/
def FullBook.fields (b : FullBook) : BookFields where
  instrument := b.instrument
  orientation := b.orientation
  bids := b.bids
  asks := b.asks
  snapshotHash := b.snapshotHash
  sourceObservedNs := b.sourceObservedNs
  venueTime := b.venueTime

end PredictionIndexer.Engine
