import PredictionIndexer.ForStd.Race
import PredictionIndexer.ForStd.Result
import PredictionIndexer.ForStd.SortByKey

/-!
# Outcome spaces

`analysis/outcome_space.py`: the terminal outcomes of an event, and for a series the plays its format
admits. A sequence of map winners is the list of the sides that won; its text spells them `H` and
`A`. Score spaces share the type, with a payload of their own.
-/

namespace PredictionIndexer.Analysis

open Fallible Race

/-- The letter of a map won. -/
def letter : Side → Char
  | .home => 'H'
  | .away => 'A'

theorem letter_injective : Function.Injective letter := by
  intro a b h
  cases a <;> cases b <;> simp_all [letter]

/-- Sequences sort as their texts do. -/
instance : LinearOrder Side := LinearOrder.lift' letter letter_injective

def sequenceText (sequence : List Side) : String := String.ofList (sequence.map letter)

inductive Coverage where
  | exhaustive
  | incompleteCoverage
deriving DecidableEq

inductive Scope where
  | regulationFulltime
  | firstHalf
  | series
deriving DecidableEq

/-- One terminal state of the event. -/
structure Outcome (π : Type) where
  key : String
  payload : π
deriving DecidableEq

/-- `home` and `away` are of the metadata. -/
structure OutcomeSpace (π : Type) where
  eventKey : String
  scope : Scope
  outcomes : List (Outcome π)
  coverage : Coverage
  home : String
  away : String
deriving DecidableEq

namespace OutcomeSpace

variable {π : Type}

def keys (space : OutcomeSpace π) : Finset String := (space.outcomes.map (·.key)).toFinset

/-- Every outcome key whose payload satisfies the predicate. -/
def select (space : OutcomeSpace π) (predicate : π → Bool) : Finset String :=
  ((space.outcomes.filter fun o => predicate o.payload).map (·.key)).toFinset

/-- `select` with a predicate that may raise. -/
def selectM (space : OutcomeSpace π) (predicate : π → Except Raised Bool) :
    Except Raised (Finset String) := do
  let chosen ← space.outcomes.filterM fun o => predicate o.payload
  return (chosen.map (·.key)).toFinset

end OutcomeSpace

/-! ## Series -/

theorem walk_home_le {target homeWins awayWins : Nat} (hle : homeWins ≤ target ∧ awayWins ≤ target)
    (hopen : ¬(homeWins = target ∨ awayWins = target)) :
    homeWins + 1 ≤ target ∧ awayWins ≤ target := by
  omega

theorem walk_away_le {target homeWins awayWins : Nat} (hle : homeWins ≤ target ∧ awayWins ≤ target)
    (hopen : ¬(homeWins = target ∨ awayWins = target)) :
    homeWins ≤ target ∧ awayWins + 1 ≤ target := by
  omega

/-- `walk`, whose results are in the order they are appended. No side has more wins than the target,
    so it comes to an end. -/
def seriesWalk (target : Nat) (played : List Side) (homeWins awayWins : Nat)
    (hle : homeWins ≤ target ∧ awayWins ≤ target) : List (List Side) :=
  if hend : homeWins = target ∨ awayWins = target then [played]
  else
    seriesWalk target (played ++ [.home]) (homeWins + 1) awayWins (walk_home_le hle hend) ++
      seriesWalk target (played ++ [.away]) homeWins (awayWins + 1) (walk_away_le hle hend)
termination_by (target - homeWins) + (target - awayWins)

theorem zero_le_target (target : Nat) : 0 ≤ target ∧ 0 ≤ target :=
  ⟨Nat.zero_le target, Nat.zero_le target⟩

/-- Every reachable map-winner sequence, stopping when a side clinches. -/
def seriesSequences (bestOf : Int) : Except Raised (List (List Side)) :=
  if bestOf < 1 ∨ bestOf % 2 = 0 then
    .error (.valueError s!"best_of must be a positive odd number, got {bestOf}")
  else
    let target := (bestOf / 2 + 1).toNat
    .ok ((seriesWalk target [] 0 0 (zero_le_target target)).sortByKey id)

structure SeriesPayload where
  sequence : List Side
  home : String
  away : String
  homeWins : Nat
  awayWins : Nat
  mapsPlayed : Nat
  winner : String
  winnerSide : Side
  margin : Nat
deriving DecidableEq

def seriesKey (sequence : List Side) : String := "seq:" ++ sequenceText sequence

/-- The outcome of a sequence. -/
def seriesOutcome (home away : String) (sequence : List Side) : Outcome SeriesPayload :=
  let homeWins := sequence.count .home
  let awayWins := sequence.count .away
  { key := seriesKey sequence
    payload := {
      sequence, home, away, homeWins, awayWins
      mapsPlayed := sequence.length
      winner := if homeWins > awayWins then home else away
      winnerSide := if homeWins > awayWins then .home else .away
      margin := ((homeWins : Int) - awayWins).natAbs } }

/-- A series space is exhaustive by construction. -/
def buildSeriesSpace (eventKey : String) (bestOf : Int) (home away : String) :
    Except Raised (OutcomeSpace SeriesPayload) := do
  let sequences ← seriesSequences bestOf
  return {
    eventKey
    scope := .series
    outcomes := sequences.map (seriesOutcome home away)
    coverage := .exhaustive
    home, away }

/-- Outcome keys still reachable once the maps have been played. -/
def reachableKeys (space : OutcomeSpace SeriesPayload) (played : List Side) : Finset String :=
  if space.scope ≠ .series then space.keys
  else if played = [] then space.keys
  else ((space.outcomes.filter fun o => played.isPrefixOf o.payload.sequence).map (·.key)).toFinset

end PredictionIndexer.Analysis
