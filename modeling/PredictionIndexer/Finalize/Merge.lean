import PredictionIndexer.ForStd.Order
import PredictionIndexer.ForStd.PriorityQueue
import PredictionIndexer.ForStd.Result

/-!
# The canonical merge

`ingester/crates/finalize/src/{rank,merge}.rs`: one cursor per lane, a heap over their heads,
keyed on `(visible_ns, lane_rank, delivery_index)` and, last, the order of the lane names. Each
pull checks that the lane's `delivery_index` is dense and its `visible_ns` does not decrease.

A lane stream is the list of what its iterator yields. The heap is the list of its contents.
Strings compare by code points, which is the order of their UTF-8 bytes.
-/

namespace PredictionIndexer.Finalize

open Fallible

/-! ## Lane ranks -/

/-- `LANE_RANKS`. Lower wins a tie. -/
def laneRanks : List (String × Nat) :=
  [("polymarket", 0), ("polymarket_snapshots", 1), ("polymarket_sports", 2),
    ("polymarket_rtds", 3), ("kalshi", 10), ("limitless", 20)]

/-- Where a lane absent from the table sorts. -/
def unrankedLaneRank : Nat := 1000

def laneRank (lane : String) : Nat :=
  ((laneRanks.find? (·.1 = lane)).map (·.2)).getD unrankedLaneRank

/-! ## Records and keys -/

/-- Where a record came from. -/
structure SourceRef where
  lane : Nat
  segment : Nat
  lineNumber : Nat
deriving DecidableEq

/-- One record as the merge sees it: its key, its bytes, and where it came from. -/
structure LaneRecord where
  visibleNs : Nat
  deliveryIndex : Nat
  source : SourceRef
  recordId : String
  contentHash : String
  line : List UInt8
  index_lt : deliveryIndex < 2 ^ 64

theorem LaneRecord.eq_iff (a b : LaneRecord) :
    (a.visibleNs = b.visibleNs ∧ a.deliveryIndex = b.deliveryIndex ∧ a.source = b.source ∧
      a.recordId = b.recordId ∧ a.contentHash = b.contentHash ∧ a.line = b.line) ↔ a = b := by
  cases a
  cases b
  simp

instance : DecidableEq LaneRecord := fun a b => decidable_of_iff _ (LaneRecord.eq_iff a b)

/-- The merge key. The last term is the position of the lane's name in the code, and the name
    itself in what is proved about it. -/
structure Key (ν : Type) where
  visibleNs : Nat
  rank : Nat
  deliveryIndex : Nat
  name : ν
deriving DecidableEq

section Key

variable {ν : Type} [Ord ν]

/-- Tuples compare left to right. -/
instance : Ord (Key ν) :=
  ⟨compareLex (compareOn Key.visibleNs) (compareLex (compareOn Key.rank)
    (compareLex (compareOn Key.deliveryIndex) (compareOn Key.name)))⟩

instance [Std.TransOrd ν] : Std.TransOrd (Key ν) :=
  inferInstanceAs (Std.TransCmp (compareLex (compareOn Key.visibleNs) (compareLex
    (compareOn Key.rank) (compareLex (compareOn Key.deliveryIndex) (compareOn Key.name)))))

theorem Key.compare_eq (a b : Key ν) :
    compare a b = (compare a.visibleNs b.visibleNs).then ((compare a.rank b.rank).then
      ((compare a.deliveryIndex b.deliveryIndex).then (compare a.name b.name))) := rfl

end Key

/-- A record waiting at the head of its lane. -/
structure Pending where
  visibleNs : Nat
  rank : Nat
  deliveryIndex : Nat
  nameOrder : Nat
  /-- Which cursor to pull from next. Deliberately not part of the key. -/
  slot : Nat
  record : LaneRecord
deriving DecidableEq

def Pending.key (p : Pending) : Key Nat := ⟨p.visibleNs, p.rank, p.deliveryIndex, p.nameOrder⟩

/-! ## Faults -/

inductive MergeDetail where
  | stream (detail : String)
  | index (found previous : Nat)
  | clock (found previous deliveryIndex : Nat)
deriving DecidableEq

/-- The text of a fault. -/
def MergeDetail.text : MergeDetail → String
  | .stream detail => detail
  | .index found previous =>
    let shape := if previous < found then
        "a gap means a segment of this lane is missing from the window, and merging across it " ++
          "would publish evidence that omits records while looking complete"
      else "a repeated or decreasing value within a lane is invalid input, not a tie"
    "delivery_index " ++ toString found ++ " does not follow " ++ toString previous ++
      "; the index is dense within a lane — " ++ shape
  | .clock found previous deliveryIndex =>
    "visible_ns " ++ toString found ++ " precedes " ++ toString previous ++
      " at delivery_index " ++ toString deliveryIndex ++ "; the merge key would run backwards"

/-- A merge failure, carrying the lane responsible for it. -/
structure MergeFault where
  lane : String
  detail : MergeDetail
deriving DecidableEq

/-! ## The merge -/

structure Cursor where
  lane : String
  rank : Nat
  /-- Position of this lane's name among the merge's lane names, sorted. -/
  nameOrder : Nat
  stream : List (Except String LaneRecord)
  lastDeliveryIndex : Option Nat
  lastVisibleNs : Option Nat

structure Merge where
  cursors : List Cursor
  heap : List Pending
  primed : Bool
  failed : Bool

namespace Merge

/-- The first of two equal neighbours. -/
def repeatedName (names : List String) : Option String :=
  (names.zip names.tail).findSome? fun (a, b) => if a = b then some a else none

/-- `Merge::new`: one stream per lane, refused when a name is supplied twice. -/
def new (lanes : List (String × List (Except String LaneRecord))) : Except String Merge :=
  let names := (lanes.map (·.1)).mergeSort (· ≤ ·)
  match repeatedName names with
  | some repeated => .error repeated
  | none => .ok {
      cursors := lanes.map fun l => {
        lane := l.1
        rank := laneRank l.1
        nameOrder := names.idxOf l.1
        stream := l.2
        lastDeliveryIndex := none
        lastVisibleNs := none }
      heap := []
      primed := false
      failed := false }

/-- The checks on a pulled record: the index follows the last one, the clock does not run
    backwards. -/
def check (mode : Arithmetic) (c : Cursor) (r : LaneRecord) :
    Except Halt (Option MergeDetail) := do
  let follows ← match c.lastDeliveryIndex with
    | none => pure none
    | some previous =>
      let expected ← mode.add previous 1
      pure (if r.deliveryIndex ≠ expected then some (.index r.deliveryIndex previous) else none)
  let backwards := match c.lastVisibleNs with
    | none => none
    | some previous =>
      if r.visibleNs < previous then some (.clock r.visibleNs previous r.deliveryIndex) else none
  pure (follows.or backwards)

/-- `advance`: pulls the next record of one lane and pushes it. -/
def advance (mode : Arithmetic) (m : Merge) (slot : Nat) :
    Except Halt (Except MergeFault Merge) := do
  let c ← unwrap m.cursors[slot]?
  match c.stream with
  | [] => pure (.ok m)
  | .error detail :: _ => pure (.error ⟨c.lane, .stream detail⟩)
  | .ok r :: stream =>
    match ← check mode c r with
    | some detail => pure (.error ⟨c.lane, detail⟩)
    | none =>
      let c' := { c with
        stream := stream
        lastDeliveryIndex := some r.deliveryIndex
        lastVisibleNs := some r.visibleNs }
      let pending : Pending :=
        ⟨r.visibleNs, c.rank, r.deliveryIndex, c.nameOrder, slot, r⟩
      pure (.ok { m with cursors := m.cursors.set slot c', heap := pending :: m.heap })

/-- The priming loop: one record from every lane. -/
def prime (mode : Arithmetic) (m : Merge) : List Nat → Except Halt (Except MergeFault Merge)
  | [] => pure (.ok m)
  | slot :: slots => do
    match ← m.advance mode slot with
    | .error fault => pure (.error fault)
    | .ok m' => m'.prime mode slots

/-- What an iterator hands out: nothing at its end. -/
abbrev Item := Option (Except MergeFault LaneRecord)

/-- `next` past the priming. -/
def pull (mode : Arithmetic) (m : Merge) : Except Halt (Item × Merge) :=
  match PriorityQueue.popMin Pending.key m.heap with
  | none => pure (none, m)
  | some (pending, heap) => do
    match ← { m with heap := heap }.advance mode pending.slot with
    | .error fault => pure (some (.error fault), { m with failed := true })
    | .ok m' => pure (some (.ok pending.record), m')

/-- `Iterator::next`. -/
def next (mode : Arithmetic) (m : Merge) : Except Halt (Item × Merge) :=
  if m.failed then pure (none, m)
  else if m.primed then m.pull mode
  else do
    let m := { m with primed := true }
    match ← m.prime mode (List.range m.cursors.length) with
    | .error fault => pure (some (.error fault), { m with failed := true })
    | .ok m' => m'.pull mode

/-- Everything the iterator yields until it ends, if it ends within `fuel` calls. -/
def drain (mode : Arithmetic) (m : Merge) :
    Nat → Except Halt (Option (List (Except MergeFault LaneRecord)))
  | 0 => pure none
  | fuel + 1 => do
    match ← m.next mode with
    | (none, _) => pure (some [])
    | (some item, m') => pure ((← m'.drain mode fuel).map (item :: ·))

end Merge

end PredictionIndexer.Finalize
