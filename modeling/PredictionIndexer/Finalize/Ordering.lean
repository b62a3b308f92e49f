import Mathlib
import PredictionIndexer.Continuity.Classifier

/-!
# Ordering state across windows

`ingester/crates/finalize/src/continuity.rs`: the bounded ordering history one window hands to the
next, how a classifier is seeded from it, and how it is captured when the window ends. Strings
compare by code points, which is the order of their UTF-8 bytes.
-/

namespace PredictionIndexer.Finalize

open Continuity

/-! ## What a window observed -/

/-- Which epochs each capture lane produced in this window. -/
abbrev SeenEpochs := Std.ExtTreeMap String (Std.ExtTreeSet String)

def SeenEpochs.observe (seen : SeenEpochs) (lane : String) (fact : ContinuityFact) : SeenEpochs :=
  seen.insert lane ((seen[lane]?.getD ∅).insert fact.key.epoch)

/-- Each lane's first and last receive time. -/
abbrev LaneClocks := Std.ExtTreeMap String (Nat × Nat)

namespace LaneClocks

def observe (clocks : LaneClocks) (lane : String) (visibleNs : Nat) : LaneClocks :=
  clocks.insert lane (match clocks[lane]? with
    | some (first, _) => (first, visibleNs)
    | none => (visibleNs, visibleNs))

def first (clocks : LaneClocks) (lane : String) : Option Nat := clocks[lane]?.map (·.1)

def lastByLane (clocks : LaneClocks) : List (String × Nat) :=
  clocks.toList.map fun e => (e.1, e.2.2)

end LaneClocks

/-! ## What a window carries -/

/-- One connection's last delivered counter. -/
structure ConnectionCarry where
  lane : String
  venue : String
  epoch : String
  localCounter : Nat
deriving DecidableEq

/-- One stream-epoch's last venue-supplied ordering key. -/
structure EpochCarry where
  lane : String
  venue : String
  stream : String
  epoch : String
  monotonicKey : Nat
deriving DecidableEq

/-- The fields the carried connections are sorted by. -/
def ConnectionCarry.order (c : ConnectionCarry) : List String := [c.lane, c.venue, c.epoch]

/-- The fields the carried epochs are sorted by. -/
def EpochCarry.order (c : EpochCarry) : List String := [c.lane, c.venue, c.stream, c.epoch]

/-- `sort_by` on some fields and `dedup_by` on the same fields. -/
def sortDedup {α : Type} (order : α → List String) (entries : List α) : List α :=
  (entries.mergeSort fun a b => decide (order a ≤ order b)).destutter
    fun a b => order a ≠ order b

/-- The bounded ordering state that crosses a window boundary. -/
structure OrderingState where
  connections : List ConnectionCarry := []
  epochs : List EpochCarry := []
deriving DecidableEq

namespace OrderingState

/-- The key and the counter a carried connection stands for, when its venue is one. -/
def connectionEntry (c : ConnectionCarry) : Option (ConnectionKey × Nat) :=
  (Venue.fromWire c.venue).map fun venue => (⟨venue, c.epoch⟩, c.localCounter)

/-- The key and the ordering key a carried epoch stands for. -/
def epochEntry (c : EpochCarry) : Option (EpochKey × Nat) :=
  (Venue.fromWire c.venue).bind fun venue => (Stream.fromWire c.stream).map fun stream =>
    (⟨⟨venue, stream⟩, c.epoch⟩, c.monotonicKey)

/-- `seed`: a classifier state carrying this ordering history and no identity history. -/
def seed (s : OrderingState) : ClassifierState where
  connections := (s.connections.filterMap connectionEntry).foldl
    (fun m e => m.insert e.1 e.2) ∅
  epochs := (s.epochs.filterMap epochEntry).foldl
    (fun m e => m.insert e.1 { monotonicKey := some e.2 }) ∅

/-- The connections of one epoch of one lane, as the classifier holds them. -/
def liveConnections (state : ClassifierState) (lane epoch : String) : List ConnectionCarry :=
  state.connections.toList.filterMap fun (key, counter) =>
    if key.epoch = epoch then some ⟨lane, key.venue.asStr, key.epoch, counter⟩ else none

/-- The epochs of one lane that the window saw, as the classifier holds them. -/
def liveEpochs (state : ClassifierState) (lane : String) (live : Std.ExtTreeSet String) :
    List EpochCarry :=
  state.epochs.toList.filterMap fun (key, epoch) =>
    match epoch.monotonicKey with
    | none => none
    | some monotonicKey =>
      if live.contains key.epoch then
        some ⟨lane, key.lane.venue.asStr, key.lane.stream.asStr, key.epoch, monotonicKey⟩
      else none

/-- `capture`: the ordering history to hand to the next window. A lane that produced nothing
    keeps its entries. -/
def capture (previous : OrderingState) (state : ClassifierState) (seen : SeenEpochs) :
    OrderingState where
  connections := sortDedup ConnectionCarry.order <|
    previous.connections.filter (fun c => !seen.contains c.lane) ++
      seen.toList.flatMap fun (lane, epochs) =>
        epochs.toList.flatMap fun epoch => liveConnections state lane epoch
  epochs := sortDedup EpochCarry.order <|
    previous.epochs.filter (fun c => !seen.contains c.lane) ++
      seen.toList.flatMap fun (lane, epochs) => liveEpochs state lane epochs

end OrderingState

end PredictionIndexer.Finalize
