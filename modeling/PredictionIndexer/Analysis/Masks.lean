import PredictionIndexer.Analysis.OutcomeSpace
import PredictionIndexer.ForStd.PyInt

/-!
# Masks

`analysis/masks.py`: the outcomes of a series that a market resolves yes on, and how two masks relate.
The resolvers of the score scopes are left out. What `str.casefold` and the regular expressions read
in a label is a parameter, `Readings`; a line is a double, at most infinite. Of a mask those fields are
kept that the relations and the claims read.
-/

namespace PredictionIndexer.Analysis

open Fallible Race

abbrev Line := WithTop ℚ

/-- `casefold`, and what the patterns find in a text. -/
structure Readings where
  casefold : String → String
  /-- `_LINE`, as a float. -/
  line : String → Option Line
  /-- `_UNDER`. -/
  isUnder : String → Bool
  /-- The number behind `game` or `map` in a label, the one between hyphens in a ticker. -/
  mapNumber : String → Option Int
  tickerNumber : String → Option Int
  /-- The name in front of a negative handicap, and its line. -/
  favoured : String → Option (String × Line)

/-- The fields the series resolvers read; an absent text is empty. -/
structure Market where
  marketType : String
  groupItemTitle : String
  yesLabel : String
  outcomeLabel : String
  ticker : String
  mapIndex : Option Int
  favouredSide : Option Side
deriving DecidableEq

def sideName : Side → String
  | .home => "home"
  | .away => "away"

/-- `str.strip`. -/
def strip (text : String) : String := String.ofList (PyInt.strip text.toList)

/-- `a or b` of texts. -/
def orText (a b : String) : String := if a = "" then b else a

namespace Market

/-- `title` -/
def title (market : Market) : String := orText market.groupItemTitle market.yesLabel

/-- `label`: an outcome label names the side where there is one. -/
def label (market : Market) : String :=
  if market.outcomeLabel = "" then market.title
  else strip (market.title ++ " " ++ market.outcomeLabel)

end Market

/-- The one side a label names. -/
def teamSide {π : Type} (r : Readings) (text : String) (space : OutcomeSpace π) : Option Side :=
  let names (name : String) : Bool :=
    let code := r.casefold name
    code ≠ "" && code.toList <:+: (r.casefold text).toList
  match names space.home, names space.away with
  | true, false => some .home
  | false, true => some .away
  | _, _ => none

/-- `sequence[position]`, from the end where the position is negative. -/
def sequenceAt (sequence : List Side) (position : Int) : Except Raised Side :=
  let index := if position < 0 then position + sequence.length else position
  match index with
  | .ofNat i => match sequence[i]? with
    | some side => .ok side
    | none => .error .indexError
  | .negSucc _ => .error .indexError

/-- The maps and the line of a number, compared. -/
def lineOfInt (n : Int) : Line := ((n : ℚ) : Line)

/-- `favoured_side`: the market's own, or the side the name in front of the line is of. -/
def favouredSide {π : Type} (r : Readings) (market : Market) (name : String)
    (space : OutcomeSpace π) : Option Side :=
  match market.favouredSide with
  | some side => some side
  | none => teamSide r name space

/-- The outcomes in which the favoured side covers. -/
def covered (space : OutcomeSpace SeriesPayload) (favoured : Side) (line : Line) : Finset String :=
  match favoured with
  | .home => space.select fun p => line < lineOfInt (p.homeWins - p.awayWins)
  | .away => space.select fun p => line < lineOfInt (p.awayWins - p.homeWins)

/-- Resolvers for the map-sequence scope. -/
def seriesMask (r : Readings) (market : Market) (space : OutcomeSpace SeriesPayload) :
    Except Raised (Option (Finset String × String)) :=
  let label := market.label
  if market.marketType = "series_moneyline" then
    match teamSide r (orText market.outcomeLabel label) space with
    | none => .ok none
    | some side =>
      .ok (some (space.select fun p => p.winnerSide = side, "series_" ++ sideName side))
  else if market.marketType = "map_winner" then
    let index := match market.mapIndex with
      | some index => some index
      | none => match r.mapNumber label with
        | some index => some index
        | none => r.tickerNumber market.ticker
    match index, teamSide r (orText market.outcomeLabel label) space with
    | some index, some side => do
      let position := index - 1
      -- a map only has a winner in sequences long enough to reach it
      let keys ← space.selectM fun p =>
        if position < p.sequence.length then do
          let winner ← sequenceAt p.sequence position
          return winner = side
        else return false
      return some (keys, "map_" ++ toString index ++ "_" ++ sideName side)
    | _, _ => .ok none
  else if market.marketType = "total_maps" then
    match r.line label with
    | none => .ok none
    | some line =>
      if r.isUnder label then
        .ok (some (space.select fun p => lineOfInt p.mapsPlayed < line, "maps_under"))
      else .ok (some (space.select fun p => line < lineOfInt p.mapsPlayed, "maps_over"))
  else if market.marketType = "map_handicap" then
    match r.favoured market.title with
    | none => .ok none
    | some (name, line) =>
      match favouredSide r market name space with
      | none => .ok none
      | some favoured =>
        let covered := covered space favoured line
        if market.outcomeLabel = "" then .ok (some (covered, "handicap_" ++ sideName favoured))
        else match teamSide r market.outcomeLabel space with
          | none => .ok none
          | some side =>
            if side = favoured then
              .ok (some (covered, "handicap_" ++ sideName favoured ++ "_covers"))
            else
              -- the underdog token is the complement
              .ok (some (space.keys \ covered, "handicap_" ++ sideName favoured ++ "_underdog"))
  else .ok none

/-! ## Relations -/

inductive MaskStatus where
  | derivable
  | notAFunction
  | differentScope
  | unsupported
deriving DecidableEq

structure Mask where
  marketKey : String
  venue : String
  scope : Scope
  status : MaskStatus
  outcomeKeys : Finset String
deriving DecidableEq

def Mask.derivable (mask : Mask) : Bool := mask.status = .derivable

inductive Relation where
  | identity
  | implication
  | reverseImplication
  | mutualExclusion
  | overlap
deriving DecidableEq

/-- Classify a pair of masks, optionally restricted to a reachable universe. -/
def relationship (left right : Mask) (reachable : Option (Finset String)) : Option Relation :=
  if !(left.derivable && right.derivable) || left.scope ≠ right.scope then none
  else
    let restrict (keys : Finset String) := match reachable with
      | none => keys
      | some reachable => keys ∩ reachable
    let a := restrict left.outcomeKeys
    let b := restrict right.outcomeKeys
    if a = ∅ ∨ b = ∅ then none
    else if a = b then some .identity
    else if a ⊂ b then some .implication
    else if b ⊂ a then some .reverseImplication
    else if a ∩ b = ∅ then some .mutualExclusion
    else some .overlap

end PredictionIndexer.Analysis
