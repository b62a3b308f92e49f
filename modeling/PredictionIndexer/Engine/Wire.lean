import PredictionIndexer.Engine.Risk
import PredictionIndexer.ForStd.Json
import PredictionIndexer.ForStd.Utf8

/-!
# The wire record of a cut

`engine/crates/transport/src/wire.rs`: wire V1 sends every cut as one JSON body and uses JSON
strings for every integer, including domain integers. The serialized forms of the domain values
are the ones their `Serialize` implementations give. `books_sha256` is modelled up to its
preimage, the text lines; the digest itself is a function of their concatenation.
-/

namespace PredictionIndexer.Engine

/-! ## Spellings -/

def ContractOrientation.spelling : ContractOrientation → String
  | .outcome => "outcome"
  | .complement => "complement"

def Side.spelling : Side → String
  | .bid => "bid"
  | .ask => "ask"

def ContinuityVerdict.spelling : ContinuityVerdict → String
  | .lifecycle => "lifecycle"
  | .bootstrap => "bootstrap"
  | .unsequencedVenue => "unsequenced_venue"
  | .sparseMonotonic => "sparse_monotonic"
  | .continuous => "continuous"
  | .gapProven => "gap_proven"
  | .cursorWentBackwards => "cursor_went_backwards"
  | .localCounterBroken => "local_counter_broken"
  | .duplicate => "duplicate"
  | .conflict => "conflict"

def Resolution.spelling : Resolution → String
  | .millisecond => "millisecond"
  | .microsecond => "microsecond"

def EventKind.spelling : EventKind → String
  | .exchangeEvent => "exchange_event"
  | .bookUpdate => "book_update"
  | .tradeReport => "trade_report"
  | .bookAsOf => "book_as_of"

def Disposition.spelling : Disposition → String
  | .observed => "observed"
  | .applied => "applied"
  | .duplicate => "duplicate"
  | .notAuthority => "not_authority"
  | .invalidated => "invalidated"

namespace Wire

mutual

/-- `exact`: every number becomes its decimal string. The values that are sent hold integers
    and text alone. -/
def exact : Json → Json
  | .number n => .string (toString n)
  | .array items => .array (exactItems items)
  | .object fields => .object (exactFields fields)
  | value => value

def exactItems : List Json → List Json
  | [] => []
  | v :: items => exact v :: exactItems items

def exactFields : List (String × Json) → List (String × Json)
  | [] => []
  | (name, v) :: fields => (name, exact v) :: exactFields fields

end

/-! ## Serialized domain values -/

def instrument (i : InstrumentId) : Json := .string i.val

def nat (n : Nat) : Json := .number n

def key (k : BookKey) : Json :=
  .object [("instrument", instrument k.instrument),
    ("orientation", .string k.orientation.spelling)]

def price (p : ConditionalMarketPrice) : Json :=
  .object [("atoms", .number p.atoms), ("scale", nat p.scale.exponent),
    ("unit", .string "quote_per_contract")]

def quantity (q : PositiveQty) : Json :=
  .object [("atoms", nat q.atoms), ("scale", nat q.scale.exponent),
    ("unit", .string "contracts")]

def change : LevelChange → Json
  | .set q => .object [("kind", .string "set"), ("value", quantity q)]
  | .delete => .object [("kind", .string "delete")]
  | .increase q => .object [("kind", .string "increase"), ("value", quantity q)]
  | .decrease q => .object [("kind", .string "decrease"), ("value", quantity q)]

def bookHash (h : BookStateHash) : Json :=
  .object [("algorithm", .string "sha1"), ("digest", .string h.digest)]

def venueTime (t : VenueTime) : Json :=
  .object [("event_ns", .ofOption nat t.eventNs),
    ("event_resolution", .ofOption (.string ·.spelling) t.eventResolution),
    ("event_kind", .ofOption (.string ·.spelling) t.eventKind),
    ("sent_ns", .ofOption nat t.sentNs)]

/-- The fields of a delta that both its serialized form and its wire operation have. -/
def deltaFields (d : BookDelta) : List (String × Json) :=
  [("instrument", instrument d.instrument), ("orientation", .string d.orientation.spelling),
    ("side", .string d.side.spelling), ("price", price d.price), ("change", change d.change),
    ("book_hash", .ofOption bookHash d.bookHash)]

/-- `operation`: transition operations retain their existing wire schema. Venue clocks are
    observations attached to `market_events`, not reconstruction instructions. -/
def operation (d : BookDelta) : Json := .object (deltaFields d)

def level (l : Level) : Json :=
  .object [("price", price l.price), ("quantity", quantity l.quantity)]

def bookEvent : BookEvent → Json
  | .full b => .object [("kind", .string "full"), ("value", .object
      [("instrument", instrument b.instrument), ("orientation", .string b.orientation.spelling),
        ("bids", .array (b.bids.map level)), ("asks", .array (b.asks.map level)),
        ("snapshot_hash", .ofOption bookHash b.snapshotHash),
        ("source_observed_ns", .ofOption nat b.sourceObservedNs),
        ("venue_time", .ofOption venueTime b.venueTime)])]
  | .delta d => .object [("kind", .string "delta"),
      ("value", .object (deltaFields d ++ [("venue_time", .ofOption venueTime d.venueTime)]))]

def trade (t : TradeEvent) : Json :=
  .object [("instrument", instrument t.instrument), ("orientation", .string t.orientation.spelling),
    ("price", price t.price), ("quantity", quantity t.quantity),
    ("aggressor", .ofOption (.string ·.spelling) t.aggressor),
    ("venue_time", .ofOption venueTime t.venueTime)]

def address (a : EventAddress) : Json :=
  .object [("canonical_seq", .number a.canonicalSeq), ("lane", .string a.lane.val),
    ("delivery_index", nat a.deliveryIndex), ("event_index", nat a.eventIndex)]

def pin (p : DerivativePin) : Json :=
  .object [("derivative_address", .string p.derivativeAddress),
    ("receipt_sha256", .string p.receiptSha256)]

def reference (r : Reference) : Json :=
  .object [("pin", pin r.pin), ("address", address r.address), ("visible_ns", nat r.visibleNs),
    ("order_ns", nat r.orderNs)]

def origin : CutOrigin → Json
  | .window p startNs endNs => .object [("kind", .string "window"), ("pin", pin p),
      ("start_ns", nat startNs), ("end_ns", nat endNs)]
  | .group p first last visibleNs => .object [("kind", .string "group"), ("pin", pin p),
      ("first", address first), ("last", address last), ("visible_ns", nat visibleNs)]

def reason : Reason → Json
  | .missingInitialization => .object [("kind", .string "missing_initialization")]
  | .epochChanged => .object [("kind", .string "epoch_changed")]
  | .connectionOpened => .object [("kind", .string "connection_opened")]
  | .connectionClosed => .object [("kind", .string "connection_closed")]
  | .connectionFailed => .object [("kind", .string "connection_failed")]
  | .subscriptionChanged => .object [("kind", .string "subscription_changed")]
  | .unsupportedState => .object [("kind", .string "unsupported_state")]
  | .scaleMismatch => .object [("kind", .string "scale_mismatch")]
  | .quantityUnderflow => .object [("kind", .string "quantity_underflow")]
  | .quantityOverflow => .object [("kind", .string "quantity_overflow")]
  | .laneNotExpected => .object [("kind", .string "lane_not_expected")]
  | .continuity verdict =>
    .object [("kind", .string "continuity"), ("verdict", .string verdict.spelling)]
  | .interval .laneMissing => .object [("kind", .string "lane_missing")]
  | .interval (.laneInvalid detail) =>
    .object [("kind", .string "lane_invalid"), ("detail", .ofOption .string detail)]
  | .interval (.visibleClockRegression previous observed) =>
    .object [("kind", .string "visible_clock_regression"),
      ("previous_visible_ns", nat previous), ("observed_visible_ns", nat observed)]

/-! ## The cut -/

def marketRecord (r : MarketRecord) : Json :=
  let event := match r.event with
    | .book b => .object [("kind", .string "book"), ("value", bookEvent b)]
    | .trade t => .object [("kind", .string "trade"), ("value", trade t)]
  .object [("reference", reference r.reference), ("event", event),
    ("disposition", .string r.disposition.spelling)]

def controlRecord (r : ControlRecord) : Json :=
  .object [("reference", reference r.reference),
    ("event", .object [("kind", .string "metadata_changed"),
      ("from", .ofOption .string r.source), ("to", .string r.target)])]

/-- A side of a ladder, ascending, as pairs. -/
def side (m : Std.ExtTreeMap Int Nat) : Json :=
  .array (m.toList.map fun pq => .array [.number pq.1, nat pq.2])

def decision : Decision → Json
  | .snapshot l =>
    .object [("kind", .string "snapshot"), ("bids", side l.bids), ("asks", side l.asks)]
  | .operations ops =>
    .object [("kind", .string "operations"), ("operations", .array (ops.map operation))]
  | .invalidation r => .object [("kind", .string "invalidation"), ("reason", reason r)]

def dependency (d : Dependency) : Json :=
  .object [("epoch", .string d.epoch), ("anchor", reference d.anchor),
    ("through", reference d.through)]

def transition (t : BookTransition) : Json :=
  .object [("key", key t.key), ("previous_revision", nat t.previousRevision),
    ("revision", nat t.view.revision), ("dependency", .ofOption dependency t.view.dependency),
    ("decision", decision t.decision)]

/-- `cut`: the body of a cut record. -/
def cut (c : RiskCut) : Json :=
  let fields := [("origin", origin c.origin),
    ("market_events", .array (c.marketEvents.map marketRecord)),
    ("book_transitions", .array (c.bookTransitions.map transition))]
  exact (.object (if c.controlEvents.isEmpty then fields
    else fields ++ [("control_events", .array (c.controlEvents.map controlRecord))]))

/-- `Publisher::record`: the envelope around a body. -/
def record (runId attemptId : String) (sequence : Nat) (kind : String) (body : Json) : Json :=
  .object [("version", .string "2"), ("run_id", .string runId), ("attempt_id", .string attemptId),
    ("sequence", .string (toString sequence)), ("kind", .string kind), ("body", body)]

/-- `terminal`: the cut count and the final book digest. -/
def terminal (cuts : Nat) (booksSha256 : String) : Json :=
  .object [("cuts", .string (toString cuts)), ("books_sha256", .string booksSha256)]

/-! ## The terminal digest -/

def validity : Validity → String
  | .notInitialized => "not_initialized"
  | .usable => "usable"
  | .unusable _ => "unusable"

/-- `join`: comma-joined `price:quantity` decimal atoms. -/
def join (levels : List (Int × Nat)) : String :=
  String.intercalate "," (levels.map fun pq => toString pq.1 ++ ":" ++ toString pq.2)

/-- A row of the digest: `(instrument, orientation, view)`. -/
abbrev Row := String × String × BookView

/-- The sort order of the rows: instrument bytes, then orientation spelling. -/
def Row.le (a b : Row) : Bool :=
  a.1.utf8Bytes < b.1.utf8Bytes || (a.1.utf8Bytes = b.1.utf8Bytes &&
    a.2.1.utf8Bytes ≤ b.2.1.utf8Bytes)

def Row.line (r : Row) : String :=
  let view := r.2.2
  let (bids, asks) := match view.validity, view.ladder with
    | .usable, some ladder => (join ladder.bids.toList.reverse, join ladder.asks.toList)
    | _, _ => ("", "")
  r.1 ++ "\t" ++ r.2.1 ++ "\t" ++ toString view.revision ++ "\t" ++ validity view.validity ++
    "\t" ++ bids ++ "\t" ++ asks ++ "\n"

/-- `books_sha256` up to the digest: one line for every planned book, sorted. -/
def bookLines (e : RiskEngine) : List String :=
  let rows := e.plans.toList.filterMap fun kp =>
    (e.view kp.1).map fun view => (kp.1.instrument.val, kp.1.orientation.spelling, view)
  (rows.mergeSort Row.le).map Row.line

end Wire

end PredictionIndexer.Engine
