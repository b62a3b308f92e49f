import PredictionIndexer.ForStd.Ladder
import PredictionIndexer.ForStd.Result
import PredictionIndexer.ForStd.SortByKey

/-!
# Economic fills

`replay/economic_fills.py`: `walk`, which prices an order of each size on one pass over a ladder,
and the projections of `replay/economic_sdk/views.py` that turn a ladder, or a fill on it, to the
opposite orientation. Levels and sizes are integers here; what the source does with other objects is
left out.
-/

namespace PredictionIndexer.Replay

open Fallible

structure Fill where
  filledAtoms : Int
  cost : Int
  depthLimited : Bool
  taken : PriceLadder
  consumed : PriceLadder
deriving DecidableEq

/-- The locals of `walk`; `levels` are those from `level_index` on. -/
structure Walk where
  levels : PriceLadder
  remaining : Int
  filled : Int
  cost : Int
  taken : PriceLadder
  consumed : PriceLadder
deriving DecidableEq

/-- `level`: the quantity of a level that the walk enters. -/
def level (value : Int × Int) : Except Raised Int :=
  if value.1 < 0 ∨ value.2 ≤ 0 then
    .error (.valueError "levels require nonnegative prices and positive quantities")
  else .ok value.2

/-- `taken[-1] = (prior_price, prior_quantity + amount)`. -/
def addToLast (taken : PriceLadder) (amount : Int) : Except Raised PriceLadder :=
  match taken.getLast? with
  | none => .error .indexError
  | some prior => .ok (taken.dropLast ++ [(prior.1, prior.2 + amount)])

namespace Walk

/-- The locals in front of the first size. -/
def start (levels : PriceLadder) : Except Raised Walk := do
  let remaining ← match levels with
    | [] => .ok 0
    | first :: _ => level first
  return { levels, remaining, filled := 0, cost := 0, taken := [], consumed := [] }

/-- `level_index += 1`, once nothing remains of the level. -/
def leave (w : Walk) (rest : PriceLadder) : Except Raised Walk :=
  match rest with
  | [] => .ok { w with levels := [] }
  | next :: _ => do
    let remaining ← level next
    return { w with levels := rest, remaining }

/-- `taken` and `consumed` with an amount more: a level that is whole so far is new to them. -/
def record (w : Walk) (amount price displayed : Int) : Except Raised (PriceLadder × PriceLadder) :=
  if w.remaining = displayed then
    .ok (w.taken ++ [(price, amount)], w.consumed ++ [(price, displayed)])
  else do
    let taken ← addToLast w.taken amount
    return (taken, w.consumed)

/-- A round of the `while` loop, at the level `price`, `displayed`. -/
def round (w : Walk) (target price displayed : Int) (rest : PriceLadder) : Except Raised Walk := do
  let amount := min w.remaining (target - w.filled)
  let (taken, consumed) ← w.record amount price displayed
  let w := { w with
    taken, consumed
    filled := w.filled + amount
    cost := w.cost + price * amount
    remaining := w.remaining - amount }
  if w.remaining = 0 then w.leave rest else .ok w

/-- A round goes on to the next level, or has filled the target. -/
theorem round_measure {w w' : Walk} {target price displayed : Int} {rest : PriceLadder}
    (hlevels : w.levels = (price, displayed) :: rest) (hlt : w.filled < target)
    (h : w.round target price displayed rest = .ok w') :
    w'.levels.length < w.levels.length ∨
      w'.levels.length = w.levels.length ∧ (target - w'.filled).toNat < (target - w.filled).toNat := by
  obtain ⟨⟨taken, consumed⟩, -, h⟩ := Except.bind_eq_ok.mp h
  simp only at h
  split at h
  next hzero =>
    left
    rw [hlevels]
    unfold leave at h
    split at h
    · cases h
      simp
    · obtain ⟨remaining, -, h⟩ := Except.bind_eq_ok.mp h
      cases h
      simp
  next hne =>
    right
    cases h
    simp only [true_and]
    omega

/-- The `while` loop of one target. -/
def fillTo (target : Int) (w : Walk) : Except Raised Walk :=
  match _ : w.levels with
  | [] => .ok w
  | (price, displayed) :: rest =>
    if _ : w.filled < target then
      match _ : w.round target price displayed rest with
      | .ok w' => fillTo target w'
      | .error e => .error e
    else .ok w
termination_by (w.levels.length, (target - w.filled).toNat)
decreasing_by
  rw [Prod.lex_def]
  exact round_measure ‹_› ‹_› ‹_›

/-- What the walk has filled once it is done with a target. -/
def fill (w : Walk) (target : Int) : Fill where
  filledAtoms := min w.filled target
  cost := w.cost
  depthLimited := w.filled < target
  taken := w.taken
  consumed := w.consumed

/-- The loop over the targets. -/
def fills (w : Walk) : List Int → Except Raised (List Fill)
  | [] => .ok []
  | target :: targets => do
    let w ← w.fillTo target
    let results ← w.fills targets
    return w.fill target :: results

end Walk

/-- An exact fill for each requested size, on one pass over the levels. -/
def walk (levels : PriceLadder) (sizesAtoms : List Int) : Except Raised (List Fill) := do
  if sizesAtoms = [] ∨ ∃ size ∈ sizesAtoms, size ≤ 0 then
    .error (.valueError "positive integer sizes required")
  else if sizesAtoms ≠ sizesAtoms.sortedSet then
    .error (.valueError "sizes must be sorted and unique")
  else do
    let w ← Walk.start levels
    w.fills sizesAtoms

/-- The opposite orientation's other side. -/
def complementLadder (levels : PriceLadder) (unit : Int) : PriceLadder :=
  levels.map fun level => (unit - level.1, level.2)

/-- A fill on the opposite orientation's other side. -/
def complementAsk (fill : Fill) (unit : Int) : Fill where
  filledAtoms := fill.filledAtoms
  cost := unit * fill.filledAtoms - fill.cost
  depthLimited := fill.depthLimited
  taken := fill.taken.map fun level => (unit - level.1, level.2)
  consumed := fill.consumed.map fun level => (unit - level.1, level.2)

end PredictionIndexer.Replay
