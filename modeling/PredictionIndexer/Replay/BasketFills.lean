import PredictionIndexer.Replay.EconomicFills

/-!
# Basket fills

`replay/economic_fills.py`: `walk_basket`, which prices whole steps of a basket on the ladders of its
legs and looks for the edge, and `kill_price`. What a caller's valuation gives is an integer or
unknown; what the source does with other objects is left out.
-/

namespace PredictionIndexer.Replay

open Fallible

/-- `FILL_STOPS` -/
inductive FillStop where
  | target
  | edge
  | bookExhausted
  | levelCap
  | valueUnknown
deriving DecidableEq

structure BasketFill where
  steps : Int
  legs : List Fill
  stop : FillStop
  value : Option Int
  before : List (Option (Int × Int))
  after : List (Option (Int × Int))
  impactPpm : List (Option Int)
  beyond : List PriceLadder
deriving DecidableEq

/-- What some steps of a basket are worth, with their fills. -/
abbrev Valuation := Int → List Fill → Option Int

/-- A leg: its ladder and its unit. -/
abbrev BasketLeg := PriceLadder × Int

def emptyFill : Fill := ⟨0, 0, false, [], []⟩

/-- `ladder[:max_levels]` -/
def usable (maxLevels : Option Int) (ladder : PriceLadder) : PriceLadder :=
  match maxLevels with
  | none => ladder
  | some levels => ladder.take levels.toNat

/-- The cumulative quantities. -/
def pointsFrom (cumulative : Int) : List Int → List Int
  | [] => []
  | quantity :: quantities =>
    (cumulative + quantity) :: pointsFrom (cumulative + quantity) quantities

/-- `min`, of the steps each leg allows. There is a leg. -/
def least : List Int → Int
  | [] => 0
  | steps :: rest => rest.foldl min steps

/-- `limit` -/
def stepLimit (maxLevels : Option Int) (legs : List BasketLeg) : Int :=
  least (legs.map fun leg => PriceLadder.depth (usable maxLevels leg.1) / leg.2)

/-- `exhausted`: the cap binds only when a leg's uncapped depth would allow more steps. -/
def exhaustedStop (maxLevels : Option Int) (legs : List BasketLeg) : FillStop :=
  match maxLevels with
  | none => .bookExhausted
  | some _ => if stepLimit maxLevels legs < stepLimit none legs then .levelCap else .bookExhausted

/-- `legs_at` -/
def legsAt (legs : List BasketLeg) (steps : Int) : Except Raised (List Fill) :=
  if steps = 0 then .ok (legs.map fun _ => emptyFill)
  else legs.mapM fun leg => do
    let fills ← walk leg.1 [steps * leg.2]
    match fills with
    | [] => .error .indexError
    | fill :: _ => .ok fill

/-- The levels left behind a fill, until they hold a unit or there are `bound` of them. -/
def beyondFrom (filled unit : Int) (bound : Option Int) :
    Int → PriceLadder → PriceLadder → PriceLadder
  | _, rest, [] => rest
  | cumulative, rest, (price, quantity) :: levels =>
    let cumulative := cumulative + quantity
    if filled < cumulative then
      let rest := rest ++ [(price, min quantity (cumulative - filled))]
      if unit ≤ PriceLadder.depth rest ∨ bound = some (rest.length : Int) then rest
      else beyondFrom filled unit bound cumulative rest levels
    else beyondFrom filled unit bound cumulative rest levels

/-- How far a fill moves a best price. -/
def impactPpm (first left : Option (Int × Int)) : Option Int :=
  match first, left with
  | some first, some left =>
    if first.1 = 0 then none else some (|left.1 - first.1| * 10 ^ 6 / first.1)
  | _, _ => none

/-- `priced` -/
def priced (maxLevels : Option Int) (basket : List BasketLeg) (steps : Int) (fills : List Fill)
    (stop : FillStop) (value : Option Int) : BasketFill :=
  let bound := maxLevels.map (· + 1)
  let beyond := (basket.zip fills).map fun (leg, fill) =>
    beyondFrom fill.filledAtoms leg.2 bound 0 [] leg.1
  let before := (basket.zip fills).map fun (leg, _) => leg.1.head?
  let after := beyond.map (·.head?)
  { steps, legs := fills, stop, value, before, after
    impactPpm := List.zipWith impactPpm before after
    beyond }

/-- `valued` -/
def valued (value : Option Valuation) (steps : Int) (fills : List Fill) : Option Int :=
  match value with
  | none => none
  | some value => if steps = 0 then none else value steps fills

/-! ## The edge -/

/-- The best so far. -/
structure Best where
  steps : Int
  value : Option Int
  legs : List Fill
  stop : FillStop
deriving DecidableEq

/-- The loop over the candidates, `at_` being `at`; what it remembers is left out, a valuation gives
    the same twice. -/
def edgeLoop (at_ : Int → Except Raised (List Fill × Option Int)) (exhausted : FillStop) :
    List Int → Int → Int → List Fill → Except Raised Best
  | [], best, bestValue, bestLegs => .ok ⟨best, some bestValue, bestLegs, exhausted⟩
  | candidate :: ordered, best, bestValue, bestLegs => do
    let (legs, current) ← at_ candidate
    match current with
    | none => .ok ⟨candidate, none, legs, .valueUnknown⟩
    | some worth =>
      if worth ≤ bestValue ∧ best + 1 < candidate then
        -- not worth more than the best: the step right after the best is next
        let (legs, current) ← at_ (best + 1)
        match current with
        | none => .ok ⟨best + 1, none, legs, .valueUnknown⟩
        | some worth =>
          if bestValue < worth then
            edgeLoop at_ exhausted (candidate :: ordered) (best + 1) worth legs
          else .ok ⟨best, some bestValue, bestLegs, .edge⟩
      else if worth ≤ bestValue then .ok ⟨best, some bestValue, bestLegs, .edge⟩
      else edgeLoop at_ exhausted ordered candidate worth legs
termination_by ordered best => (ordered.length, (ordered.headD 0 - best).toNat)
decreasing_by
  · right
    simp only [List.headD_cons]
    omega
  · left
    simp

/-- The step counts on either side of each boundary, and the limit. -/
def candidatesOf (limit : Int) (boundaries : List (List Int × Int)) : List Int :=
  (limit :: boundaries.flatMap fun (points, unit) =>
    points.flatMap fun point => [point / unit, -(-point / unit)]).filter
      (fun candidate => 0 < candidate ∧ candidate ≤ limit) |>.sortedSet

/-- The edge walk. -/
def edgeFill (maxLevels : Option Int) (basket : List BasketLeg) (boundaries : List (List Int × Int))
    (value : Option Valuation) : Except Raised BasketFill := do
  let fills ← legsAt basket 0
  let at_ (steps : Int) : Except Raised (List Fill × Option Int) := do
    let fills ← legsAt basket steps
    return (fills, valued value steps fills)
  let best ← edgeLoop at_ (exhaustedStop maxLevels basket)
    (candidatesOf (stepLimit maxLevels basket) boundaries) 0 0 fills
  return priced maxLevels basket best.steps best.legs best.stop
    (if best.steps = 0 then none else best.value)

/-- One result for each target, in order, then that of the edge walk when it is asked for. -/
def walkBasket (ladders : List PriceLadder) (units : List Int) (targets : List Int)
    (value : Option Valuation) (edge : Bool) (maxLevels : Option Int) :
    Except Raised (List BasketFill) :=
  if units = [] ∨ ladders.length ≠ units.length then
    .error (.valueError "one positive unit per ladder required")
  else if ∃ unit ∈ units, unit ≤ 0 then
    .error (.valueError "one positive unit per ladder required")
  else if ∃ target ∈ targets, target ≤ 0 then
    .error (.valueError "positive integer targets required")
  else if targets ≠ targets.sortedSet then
    .error (.valueError "targets must be sorted and unique")
  else if targets = [] ∧ edge = false then
    .error (.valueError "a target or the edge walk is required")
  else if edge = true ∧ value.isNone then
    .error (.valueError "the edge walk requires a value")
  else if maxLevels.any (· ≤ 0) then
    .error (.valueError "max_levels must be a positive integer")
  else do
    let basket := ladders.zip units
    let boundaries ← basket.mapM fun (ladder, unit) => do
      let quantities ← (usable maxLevels ladder).mapM level
      return (pointsFrom 0 quantities, unit)
    let limit := stepLimit maxLevels basket
    let results ← targets.mapM fun target => do
      let (steps, stop) :=
        if target ≤ limit then (target, .target) else (limit, exhaustedStop maxLevels basket)
      let fills ← legsAt basket steps
      return priced maxLevels basket steps fills stop (valued value steps fills)
    if edge then do
      let best ← edgeFill maxLevels basket boundaries value
      return results ++ [best]
    else return results

/-! ## Kill prices -/

/-- `positive`: the basket is worth a known positive integer, the leg's whole fill at one price. -/
def positiveAt (value : Valuation) (steps : Int) (legs : List Fill) (leg : Nat) (quantity price : Int) :
    Bool :=
  match value steps (legs.set leg ⟨quantity, price * quantity, false, [(price, quantity)],
      [(price, quantity)]⟩) with
  | none => false
  | some worth => 0 < worth

/-- The loop of a sold leg: not positive at `low`, positive at `high`. -/
def lowerKill (positive : Int → Bool) (low high : Int) : Int :=
  if _ : 1 < high - low then
    if positive ((low + high) / 2) then lowerKill positive low ((low + high) / 2)
    else lowerKill positive ((low + high) / 2) high
  else low
termination_by (high - low).toNat
decreasing_by all_goals omega

/-- The loop of a bought leg: positive at `low`, not positive at `high`. -/
def upperKill (positive : Int → Bool) (low high : Int) : Int :=
  if _ : 1 < high - low then
    if positive ((low + high) / 2) then upperKill positive ((low + high) / 2) high
    else upperKill positive low ((low + high) / 2)
  else high
termination_by (high - low).toNat
decreasing_by all_goals omega

/-- The price at which a leg's whole fill stops being worth taking. -/
def killPrice (value : Valuation) (steps : Int) (legs : List Fill) (leg : Nat) (maximum : Int)
    (sell : Bool) : Except Raised (Option Int) :=
  if steps ≤ 0 ∨ maximum < 0 then
    .error (.valueError "positive steps and a nonnegative maximum price required")
  else match legs[leg]? with
    | none => .error .indexError
    | some fill =>
      if fill.filledAtoms ≤ 0 then .error (.valueError "the leg must have filled atoms")
      else
        let positive := positiveAt value steps legs leg fill.filledAtoms
        if sell then
          if positive 0 then .ok none else .ok (some (lowerKill positive 0 (maximum + 1)))
        else if positive maximum then .ok none
        else .ok (some (upperKill positive (-1) maximum))

end PredictionIndexer.Replay
