import PredictionIndexer.Replay.BasketFills

/-!
# Fill checks

`replay/economic_sdk/fills.py`, and what `replay/economic_sdk/runtime.py` does with a fill at each
commit of an entity. Of an entity's episodes only those of the trigger kind are modelled, and of an
episode its start and its fill; budgets, slices and the texts of rows are left out.
-/

namespace PredictionIndexer.Replay

open Fallible

/-! ## Policy -/

inductive FillRole where
  | governs
  | records
deriving DecidableEq

inductive FillMode where
  | target (steps : Int)
  | edge
deriving DecidableEq

structure FillSizing where
  name : String
  role : FillRole
  mode : FillMode
deriving DecidableEq

/-- What `fill_policy` has checked. -/
structure FillPolicy where
  maxLevels : Int
  sizings : List FillSizing
  capped : 1 ≤ maxLevels
  targets : ∀ sizing ∈ sizings, ∀ steps, sizing.mode = .target steps → 0 < steps
  governed : ∃ sizing ∈ sizings, sizing.role = .governs

/-- `FILL_SOURCES` -/
inductive FillSource where
  | ask
  | kalshiComplementAsk
  | bid
  | kalshiComplementBid
deriving DecidableEq

/-- `SELL_SOURCES` -/
def FillSource.sells : FillSource → Bool
  | ask | kalshiComplementAsk => false
  | bid | kalshiComplementBid => true

/-- What `check_spec` has checked, with the greatest price of each leg. -/
structure FillSpec where
  sources : List FillSource
  units : List Int
  maxima : List Int
  legs : units ≠ [] ∧ sources.length = units.length ∧ maxima.length = units.length
  positive : ∀ unit ∈ units, 0 < unit
  scaled : ∀ maximum ∈ maxima, 0 ≤ maximum

/-- `sells` -/
def FillSpec.sell (spec : FillSpec) : List Bool := spec.sources.map (·.sells)

/-! ## Pricing -/

/-- `FILL_STATES` -/
inductive FillState where
  | live
  | depthShort
  | valueUnknown
  | nonpositive
deriving DecidableEq

/-- `NO_FILL_PRECEDENCE` -/
def noFillPrecedence : List FillState := [.depthShort, .valueUnknown, .nonpositive]

/-- Whether a best walked price has reached a kill price. -/
def reached (best : Int) (kill : Option Int) (sell : Bool) : Bool :=
  match kill with
  | none => false
  | some kill => if sell then best ≤ kill else kill ≤ best

/-- The first of two kill prices that a move away from the fill reaches. -/
def tighter (current kill : Option Int) (sell : Bool) : Option Int :=
  match current, kill with
  | none, kill => kill
  | current, none => current
  | some current, some kill => some (if sell then max current kill else min current kill)

/-- `walk_sizing` -/
def walkSizing (sizing : FillSizing) (ladders : List PriceLadder) (units : List Int)
    (value : Valuation) (maxLevels : Int) : Except Raised BasketFill := do
  let results ← match sizing.mode with
    | .target steps => walkBasket ladders units [steps] (some value) false (some maxLevels)
    | .edge => walkBasket ladders units [] (some value) true (some maxLevels)
  match results with
  | [result] => .ok result
  | _ => .error (.valueError "too many values to unpack (expected 1)")

/-- `short` -/
def isShort (sizing : FillSizing) (result : BasketFill) : Bool :=
  match sizing.mode with
  | .target steps => result.steps < steps
  | .edge => result.steps = 0 ∧ result.stop ≠ .edge

/-- The kill price of each leg. -/
def killPrices (result : BasketFill) (value : Valuation) (maxima : List Int) (sell : List Bool) :
    Except Raised (List (Option Int)) :=
  (List.range result.legs.length).mapM fun leg =>
    match maxima[leg]?, sell[leg]? with
    | some maximum, some side => killPrice value result.steps result.legs leg maximum side
    | _, _ => .error .indexError

/-- The kill prices of a sizing that took steps and is worth a known positive integer. -/
def positiveKills (result : BasketFill) (value : Valuation) (maxima : List Int) (sell : List Bool) :
    Except Raised (Option (List (Option Int))) :=
  if result.steps ≠ 0 ∧ result.value.any (0 < ·) then do
    let kills ← killPrices result value maxima sell
    return some kills
  else return none

/-- `any(reached(before[0], kill, side) ...)`: a leg with steps has a best level. -/
def anyReached : List (Option Int) → List (Option (Int × Int)) → List Bool → Except Raised Bool
  | kill :: kills, before :: befores, side :: sides =>
    match before with
    | none => .error (.typeError "'NoneType' object is not subscriptable")
    | some level => if reached level.1 kill side then .ok true else anyReached kills befores sides
  | _, _, _ => .ok false

/-- The kill prices of one priced sizing and, unless it is tradeable, its no-fill reason. -/
def assess (sizing : FillSizing) (result : BasketFill) (value : Valuation) (maxima : List Int)
    (sell : List Bool) : Except Raised (Option (List (Option Int)) × Option FillState) :=
  let short := isShort sizing result
  if short = true ∧ sizing.role = .governs then .ok (none, some .depthShort)
  else do
    let kills ← positiveKills result value maxima sell
    if short then return (kills, some .depthShort)
    else if result.steps ≠ 0 ∧ result.value = none then return (kills, some .valueUnknown)
    else match kills with
      | none => return (none, some .nonpositive)
      | some prices => do
        let any ← anyReached prices result.before sell
        if any then return (kills, some .nonpositive) else return (kills, none)

/-- `_row` -/
structure FillRow where
  sizing : FillSizing
  result : BasketFill
  tradeable : Bool
  killPrices : Option (List (Option Int))
deriving DecidableEq

/-- The episode's `fill` object, without its spec. -/
structure FillObject where
  results : List FillRow
  killPrices : List (Option Int)
  killLeg : Option Nat
  killBest : Option (Int × Int)
deriving DecidableEq

structure Priced where
  state : FillState
  fill : Option FillObject
deriving DecidableEq

/-- A sizing with what it is priced at. -/
structure Assessed where
  sizing : FillSizing
  result : BasketFill
  kills : Option (List (Option Int))
  reason : Option FillState
deriving DecidableEq

def assessSizing (policy : FillPolicy) (spec : FillSpec) (ladders : List PriceLadder)
    (value : Valuation) (sizing : FillSizing) : Except Raised Assessed := do
  let result ← walkSizing sizing ladders spec.units value policy.maxLevels
  let (kills, reason) ← assess sizing result value spec.maxima spec.sell
  return ⟨sizing, result, kills, reason⟩

/-- `effective` with the kill prices of one more governing sizing. -/
def tighten (effective : List (Option Int)) (kills : List (Option Int)) (sell : List Bool) :
    List (Option Int) :=
  List.zipWith (fun pair side => tighter pair.1 pair.2 side) (effective.zip kills) sell

/-- Price the governing sizings; when all are tradeable, open with the records too. -/
def price (policy : FillPolicy) (spec : FillSpec) (ladders : List PriceLadder) (value : Valuation) :
    Except Raised Priced := do
  let governing ← (policy.sizings.filter (·.role = .governs)).mapM
    (assessSizing policy spec ladders value)
  match noFillPrecedence.find? fun reason => governing.any (·.reason = some reason) with
  | some reason => return ⟨reason, none⟩
  | none => do
    -- what is known of the governing sizings is not priced again; pricing it gives the same
    let assessed ← policy.sizings.mapM (assessSizing policy spec ladders value)
    let effective := (assessed.filter (·.sizing.role = .governs)).foldl
      (fun effective row => tighten effective (row.kills.getD []) spec.sell)
      (ladders.map fun _ => none)
    return ⟨.live, some {
      results := assessed.map fun row => ⟨row.sizing, row.result, row.reason = none, row.kills⟩
      killPrices := effective, killLeg := none, killBest := none }⟩

/-- The first leg whose best walked price has reached its kill price, with that level. -/
def crossedFrom (leg : Nat) : List (Option Int) → List FillSource → List PriceLadder →
    Option (Nat × (Int × Int))
  | kill :: kills, source :: sources, ladder :: ladders =>
    match ladder with
    | [] => crossedFrom (leg + 1) kills sources ladders
    | level :: _ =>
      if reached level.1 kill source.sells then some (leg, level)
      else crossedFrom (leg + 1) kills sources ladders
  | _, _, _ => none

/-- `crossed` -/
def crossed (kill : List (Option Int)) (sources : List FillSource) (ladders : List PriceLadder) :
    Option (Nat × (Int × Int)) :=
  crossedFrom 0 kill sources ladders

/-! ## Commits -/

/-- The trigger-positive state of an entity: since when, which, and the epochs of its books. -/
structure OpenState where
  since : Int
  state : FillState
  epochs : List Nat
deriving DecidableEq

/-- The open episode of the trigger kind. -/
structure OpenFill where
  start : Int
  fill : FillObject
deriving DecidableEq

/-- `kill_leg` and `kill_best`, as they are set. -/
def OpenFill.killedAt (episode : OpenFill) (leg : Nat) (best : Int × Int) : OpenFill :=
  { episode with fill := { episode.fill with killLeg := some leg, killBest := some best } }

inductive EndReason where
  | killPrice
  | predicateFalse
  | status (status : String)
deriving DecidableEq

structure ClosedFill where
  start : Int
  stop : Int
  reason : EndReason
  fill : FillObject
deriving DecidableEq

/-- What fill mode keeps of one entity. -/
structure FillRun where
  state : Option OpenState
  episode : Option OpenFill
  closed : List ClosedFill
  /-- `fill_ns` -/
  fillNs : FillState → Int

/-- What a commit of the entity sees at an instant. -/
structure FillCommit where
  time : Int
  /-- The observation's status, unless it is evaluated. -/
  status : Option String
  trigger : Bool
  ladders : List PriceLadder
  epochs : List Nat
deriving DecidableEq

namespace FillRun

def start : FillRun := ⟨none, none, [], fun _ => 0⟩

/-- `_charge_fill` -/
def charge (run : FillRun) (state : FillState) (duration : Int) : FillRun :=
  if duration ≤ 0 then run
  else { run with fillNs := Function.update run.fillNs state (run.fillNs state + duration) }

/-- `_fill_state`: `none` is trigger-off. -/
def setState (run : FillRun) (time : Int) (next : Option (FillState × List Nat)) : FillRun :=
  match run.state with
  | none =>
    match next with
    | none => run
    | some (state, epochs) => { run with state := some ⟨time, state, epochs⟩ }
  | some current =>
    match next with
    | none => { run.charge current.state (time - current.since) with state := none }
    | some (state, epochs) =>
      if current.state = state then { run with state := some { current with epochs } }
      else { run.charge current.state (time - current.since) with state := some ⟨time, state, epochs⟩ }

/-- `_close_episodes`: one without length leaves no row. -/
def close (run : FillRun) (time : Int) (reason : EndReason) : FillRun :=
  match run.episode with
  | none => run
  | some episode =>
    if time ≤ episode.start then { run with episode := none }
    else { run with
      episode := none
      closed := run.closed ++ [⟨episode.start, time, reason, episode.fill⟩] }

/-- The reason for which a trigger that is off ends a fill. -/
def offReason (commit : FillCommit) : EndReason :=
  match commit.status with
  | none => .predicateFalse
  | some status => .status status

/-- What follows once no fill is open: at most one pricing. -/
def reprice (policy : FillPolicy) (spec : FillSpec) (value : Int → Valuation) (run : FillRun)
    (commit : FillCommit) : Except Raised FillRun :=
  if commit.trigger = false then .ok (run.setState commit.time none)
  else if run.state.any fun state => state.state ≠ .live ∧ state.epochs = commit.epochs then
    -- identical ladders give the identical no-fill result
    .ok run
  else do
    let priced ← price policy spec commit.ladders (value commit.time)
    let run := match priced.fill with
      | none => run
      | some fill => { run with episode := some ⟨commit.time, fill⟩ }
    return run.setState commit.time (some (priced.state, commit.epochs))

/-- `_commit_fill` -/
def commitFill (policy : FillPolicy) (spec : FillSpec) (value : Int → Valuation) (run : FillRun)
    (commit : FillCommit) : Except Raised FillRun :=
  match run.episode with
  | none => reprice policy spec value run commit
  | some episode =>
    if commit.trigger = false then
      reprice policy spec value (run.close commit.time (offReason commit)) commit
    else match crossed episode.fill.killPrices spec.sources commit.ladders with
      | none => .ok run
      | some (leg, best) =>
        let run := { run with episode := some (episode.killedAt leg best) }
        reprice policy spec value (run.close commit.time .killPrice) commit

/-- A run of commits. -/
def commits (policy : FillPolicy) (spec : FillSpec) (value : Int → Valuation) (run : FillRun) :
    List FillCommit → Except Raised FillRun :=
  List.foldlM (commitFill policy spec value) run

end FillRun

end PredictionIndexer.Replay
