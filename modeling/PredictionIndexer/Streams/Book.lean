import PredictionIndexer.Engine.Domain
import PredictionIndexer.ForStd.Json
import PredictionIndexer.ForStd.PyInt
import PredictionIndexer.ForStd.Result

/-!
# The consumer's book

`replay/streams/protocol.py`, class `Book`: one planned book, mutated in place by its decoder.
Quantities are kept in a dense list for small price scales and in a dict for wide ones; the
occupied prices and the best price of a side are kept beside them.

Wire values are `Json`; where the source subscripts, iterates or converts one, the accessors of
the first section raise what Python raises. `ProtocolError` keeps its message; the exceptions
that `Decoder.apply` turns into "malformed record" are one constructor.
-/

namespace PredictionIndexer.Streams

open Engine (Side)

/-! ## Raising, and reading wire values -/

inductive Raise where
  | protocol (message : String)
  | malformed
deriving DecidableEq

/-- `require`: raises `ProtocolError` unless the condition holds. -/
def require (ok : Bool) (message : String) : Except Raise Unit :=
  if ok then .ok () else .error (.protocol message)

/-- A lookup that raises `KeyError`, `TypeError` or `IndexError` when there is nothing. -/
def found {α : Type} : Option α → Except Raise α
  | some a => .ok a
  | none => .error .malformed

/-- `v[name]`. -/
def item (v : Json) (name : String) : Except Raise Json :=
  match v with
  | .object fields => found (Json.field? fields name)
  | _ => .error .malformed

/-- The characters of a string, as one-character strings. -/
def chars (s : String) : List Json := s.toList.map fun c => .string c.toString

/-- What a `for` loop over a value visits. -/
def iterate : Json → Except Raise (List Json)
  | .array items => .ok items
  | .string s => .ok (chars s)
  | .object fields => .ok (fields.map fun f => .string f.1)
  | _ => .error .malformed

/-- The slot of a list of length `n` that an index names; negative ones count from the end. -/
def slot (n : Nat) (i : Int) : Except Raise Nat :=
  if 0 ≤ i ∧ i < n then .ok i.toNat
  else if -n ≤ i ∧ i < 0 then .ok (i + n).toNat
  else .error .malformed

/-- `v[i]` with an integer `i`. -/
def index (v : Json) (i : Int) : Except Raise Json :=
  match v with
  | .array items => do found items[← slot items.length i]?
  | .string s => do found (chars s)[← slot s.length i]?
  | _ => .error .malformed

/-- `a, b = v`. -/
def unpack (v : Json) : Except Raise (Json × Json) := do
  match ← iterate v with
  | [a, b] => .ok (a, b)
  | _ => .error .malformed

/-- `int(v)`. -/
def int : Json → Except Raise Int
  | .number n => .ok n
  | .bool b => .ok (if b then 1 else 0)
  | .string s => found (PyInt.parse s)
  | _ => .error .malformed

/-- `v == text`. -/
def equals (v : Json) (text : String) : Bool :=
  match v with
  | .string s => s = text
  | _ => false

/-- `SIDES[v]`. -/
def sideOf (v : Json) : Except Raise Side :=
  if equals v "bid" then .ok .bid
  else if equals v "ask" then .ok .ask
  else .error .malformed

/-! ## Quantities -/

/-- Dense price lists are used up to this scale. -/
def denseMaxPriceScale : Nat := 4

/-- `BEST_SCAN_SLOTS`. -/
def bestScanSlots : Int := 64

/-- Price to quantity: a list of all slots, or a dict whose absent keys read as 0. -/
inductive Quantities where
  | dense (slots : Array Int)
  | sparse (entries : Std.ExtTreeMap Int Int)

namespace Quantities

def get (q : Quantities) (p : Int) : Except Raise Int :=
  match q with
  | .dense slots => do found slots[← slot slots.size p]?
  | .sparse entries => .ok (entries[p]?.getD 0)

def set (q : Quantities) (p v : Int) : Except Raise Quantities :=
  match q with
  | .dense slots => do pure (.dense (slots.setIfInBounds (← slot slots.size p) v))
  | .sparse entries => .ok (.sparse (entries.insert p v))

/-- `quantities[price] = 0` for a list, `del quantities[price]` for a dict. -/
def remove (dense : Bool) (q : Quantities) (p : Int) : Except Raise Quantities :=
  if dense then q.set p 0
  else
    match q with
    | .dense slots => do pure (.dense (slots.eraseIdxIfInBounds (← slot slots.size p)))
    | .sparse entries =>
      if entries.contains p then .ok (.sparse (entries.erase p)) else .error .malformed

/-- `quantities.clear()`. -/
def clear : Quantities → Quantities
  | .dense _ => .dense #[]
  | .sparse _ => .sparse ∅

/-- `[0] * size`, or an empty dict. -/
def fresh (dense : Bool) (limit : Nat) : Quantities :=
  if dense then .dense (Array.replicate (limit + 1) 0) else .sparse ∅

end Quantities

/-! ## The book -/

/-- A pair that the source indexes by `SIDES`. -/
structure Sides (α : Type) where
  bid : α
  ask : α

namespace Sides

variable {α : Type}

def get (x : Sides α) : Side → α
  | .bid => x.bid
  | .ask => x.ask

def set (x : Sides α) (s : Side) (a : α) : Sides α :=
  match s with
  | .bid => { x with bid := a }
  | .ask => { x with ask := a }

@[simp] theorem get_set_self (x : Sides α) (s : Side) (a : α) : (x.set s a).get s = a := by
  cases s <;> rfl

theorem get_set_of_ne (x : Sides α) {s s' : Side} (h : s ≠ s') (a : α) :
    (x.set s a).get s' = x.get s' := by
  cases s <;> cases s' <;> first | rfl | exact absurd rfl h

end Sides

inductive Validity where
  | notInitialized
  | usable
  | unusable
deriving DecidableEq

def Validity.spelling : Validity → String
  | .notInitialized => "not_initialized"
  | .usable => "usable"
  | .unusable => "unusable"

/-- `None` is `Json.null` in the fields that hold wire values. -/
structure Book where
  revision : Int
  validity : Validity
  dependency : Json
  asOf : Json
  reason : Json
  limit : Nat
  dense : Bool
  quantities : Option (Sides Quantities)
  occupied : Sides (Std.ExtTreeSet Int)
  best : Sides (Option Int)

namespace Book

/-- `Book.__init__`. Quantities are allocated by the first snapshot. -/
def new (priceScale : Nat) : Book where
  revision := 0
  validity := .notInitialized
  dependency := .null
  asOf := .null
  reason := .null
  limit := 10 ^ priceScale
  dense := priceScale ≤ denseMaxPriceScale
  quantities := none
  occupied := ⟨∅, ∅⟩
  best := ⟨none, none⟩

/-- Occupied prices, best first: bids descending, asks ascending. -/
def sorted (b : Book) : Side → List Int
  | .bid => b.occupied.bid.toList.reverse
  | .ask => b.occupied.ask.toList

/-- `levels`: `(price_atoms, quantity_atoms)`; `n` limits their number. -/
def levels (b : Book) (s : Side) (n : Option Nat) : Except Raise (List (Int × Int)) :=
  if b.validity ≠ .usable then .ok []
  else do
    let quantities ← found b.quantities
    let prices := match n with
      | none => b.sorted s
      | some 1 => (b.best.get s).toList
      | some n => (b.sorted s).take n
    prices.mapM fun p => do pure (p, ← (quantities.get s).get p)

/-! ### Clearing and snapshots -/

/-- One round of `_clear`: zeroes the occupied slots of a list, empties a dict. -/
def clearSide (b : Book) (s : Side) : Except Raise Book :=
  match b.quantities with
  | none => .ok b
  | some quantities => do
    let q ←
      if b.dense then (b.occupied.get s).toList.foldlM (fun q p => q.set p 0) (quantities.get s)
      else pure (quantities.get s).clear
    pure { b with
      quantities := some (quantities.set s q)
      occupied := b.occupied.set s ∅ }

/-- `_clear`. -/
def clear (b : Book) : Except Raise Book := do
  let b ← [Side.bid, .ask].foldlM clearSide b
  pure { b with best := ⟨none, none⟩ }

/-- One level of a snapshot. -/
def snapshotLevel (limit : Nat) (acc : Quantities × Std.ExtTreeSet Int) (level : Json) :
    Except Raise (Quantities × Std.ExtTreeSet Int) := do
  let (price, quantity) ← unpack level
  let p ← int price
  -- Dense-list index guard: a negative index would silently alias.
  require (0 ≤ p && p ≤ limit) "price outside plan scale"
  let q ← acc.1.set p (← int quantity)
  pure (q, acc.2.insert p)

/-- Publisher ladders are ascending: best bid last, best ask first. -/
def topIndex : Side → Int
  | .bid => -1
  | .ask => 0

/-- One side of a snapshot. -/
def snapshotSide (b : Book) (s : Side) (ladder : Json) : Except Raise Book := do
  let quantities ← found b.quantities
  let levels ← iterate ladder
  let (q, occupied) ←
    levels.foldlM (snapshotLevel b.limit) (quantities.get s, b.occupied.get s)
  let best ←
    if levels.isEmpty then pure (b.best.get s)
    else do
      let top ← index ladder (topIndex s)
      pure (some (← int (← index top 0)))
  pure { b with
    quantities := some (quantities.set s q)
    occupied := b.occupied.set s occupied
    best := b.best.set s best }

/-- Allocates the quantities, or clears only previously occupied slots. -/
def reset (b : Book) : Except Raise Book :=
  match b.quantities with
  | none =>
    let fresh := Quantities.fresh b.dense b.limit
    .ok { b with quantities := some ⟨fresh, fresh⟩ }
  | some _ => b.clear

/-- `_snapshot`. -/
def snapshot (b : Book) (bids asks : Json) : Except Raise Book := do
  let b ← b.reset
  let b ← b.snapshotSide .bid bids
  b.snapshotSide .ask asks

/-! ### Operations -/

/-- The adjacent slots that `_next_best` looks at before it falls back to the whole set. -/
def scan (limit : Nat) (removed : Int) : Side → List Int
  | .bid =>
    let stop := max (removed - 1 - bestScanSlots) (-1)
    (List.range (removed - 1 - stop).toNat).map fun i : Nat => removed - 1 - (i : Int)
  | .ask =>
    let stop := min (removed + 1 + bestScanSlots) (limit + 1)
    (List.range (stop - (removed + 1)).toNat).map fun i : Nat => removed + 1 + (i : Int)

/-- The first price of a scan with a quantity. -/
def firstOccupied (q : Quantities) : List Int → Except Raise (Option Int)
  | [] => .ok none
  | p :: prices => do
    if (← q.get p) ≠ 0 then .ok (some p) else firstOccupied q prices

/-- `max(occupied) if s == 0 else min(occupied)`. -/
def extreme (s : Side) (occupied : Std.ExtTreeSet Int) : Option Int :=
  match s with
  | .bid => occupied.max?
  | .ask => occupied.min?

/-- `_next_best`. -/
def nextBest (b : Book) (q : Quantities) (s : Side) (removed : Int) :
    Except Raise (Option Int) :=
  let occupied := b.occupied.get s
  if occupied.isEmpty then .ok none
  else do
    let near ← if b.dense then firstOccupied q (scan b.limit removed s) else pure none
    pure (near.or (extreme s occupied))

/-- Whether a newly occupied price is the best one. -/
def improves (s : Side) (p : Int) (top : Option Int) : Bool :=
  match top with
  | none => true
  | some t => match s with
    | .bid => t < p
    | .ask => p < t

/-- The tail of an operation's round: stores the new quantity of a price. -/
def place (b : Book) (quantities : Sides Quantities) (s : Side) (p new : Int) :
    Except Raise Book := do
  let occupied := b.occupied.get s
  if 0 < new then
    let q ← (quantities.get s).set p new
    let b := { b with quantities := some (quantities.set s q) }
    if occupied.contains p then pure b
    else
      let top := b.best.get s
      pure { b with
        occupied := b.occupied.set s (occupied.insert p)
        best := if improves s p top then b.best.set s (some p) else b.best }
  else do
    require (new = 0) "invalid authoritative operation"
    if occupied.contains p then
      let q ← (quantities.get s).remove b.dense p
      let b := { b with
        quantities := some (quantities.set s q)
        occupied := b.occupied.set s (occupied.erase p) }
      if b.best.get s = some p then
        pure { b with best := b.best.set s (← b.nextBest q s p) }
      else pure b
    else pure b

/-- `int(change["value"]["atoms"])`. -/
def changeAtoms (change : Json) : Except Raise Int := do
  int (← item (← item change "value") "atoms")

/-- The quantity a change leaves at its price. -/
def changed (q : Quantities) (p : Int) (change : Json) : Except Raise Int := do
  let kind ← item change "kind"
  if equals kind "set" then changeAtoms change
  else if equals kind "increase" then do
    let old ← q.get p
    pure (old + (← changeAtoms change))
  else if equals kind "decrease" then do
    let old ← q.get p
    pure (old - (← changeAtoms change))
  else do
    require (equals kind "delete") "unknown level change"
    pure 0

/-- One round of `_operations`. -/
def operation (b : Book) (op : Json) : Except Raise Book := do
  let s ← sideOf (← item op "side")
  let p ← int (← item (← item op "price") "atoms")
  require (0 ≤ p && p ≤ b.limit) "price outside plan scale"
  let quantities ← found b.quantities
  let new ← changed (quantities.get s) p (← item op "change")
  b.place quantities s p new

/-- `_operations`. -/
def operations (b : Book) (ops : Json) : Except Raise Book := do
  (← iterate ops).foldlM operation b

end Book

end PredictionIndexer.Streams
