import PredictionIndexer.Replay.GameState

/-!
# Game timeline

`Timeline`, `episode_game` and `check_episode_game` of `replay/economic_sdk/game.py`: the facts of a
game document in the order they are released, and the view they make. A policy has what a timeline
reads of it; its input and its priors are left out.
-/

namespace PredictionIndexer.Replay.Game

/-! ## Policy -/

/-- `after_ms` of each window. -/
structure Windows where
  segmentStart : Int
  segmentEnd : Int
  matchEnd : Int

inductive StartMode where
  | estimated
  | atSegmentEnd
deriving DecidableEq

structure Policy where
  required : Bool
  windows : Windows
  segmentStart : StartMode

/-- `game_policy` -/
def gamePolicy (policy : Policy) : Except GameError Unit := do
  natural policy.windows.segmentStart
  natural policy.windows.segmentEnd
  natural policy.windows.matchEnd

/-! ## Facts and views -/

inductive FactKind where
  | scheduled
  | segmentStart (index : Int) (estimated : Bool)
  | segmentEnd (index : Int) (winner : Option Side) (details : Json)
  | segmentSettled (index : Int)
  | matchEnd (value : Match)

structure Fact where
  kind : FactKind
  releaseNs : Int
  sourceNs : Int

inductive Phase where
  | unavailable
  | preMatch
  | inSegment
  | betweenSegments
  | finished
deriving DecidableEq

structure SegmentResult where
  index : Int
  winner : Option Side
  endNs : Int
  details : Json

structure GameView where
  phase : Phase
  segment : Option Int
  phaseSinceNs : Int
  score : Score
  lastSegment : Option SegmentResult
  settled : Option Int
  revision : Int
  reason : Option String
  sport : Option String
  game : Option String
  segmentKind : Option String
  marketTypes : List String
  competitors : Competitors

def afterMs (at_ms : Int) (window : Int) : Int := at_ms + window * 1000000

/-- The facts of a segment. -/
def segmentFacts (policy : Policy) (segment : Segment) : Except GameError (List Fact) :=
  match segment.endNs with
  | none => .error .typeError
  | some stop =>
    let endRelease := afterMs stop policy.windows.segmentEnd
    let starts := segment.startNs.toList.map fun start =>
      { kind := .segmentStart segment.index segment.startEstimated
        releaseNs := match policy.segmentStart with
          | .atSegmentEnd => endRelease
          | .estimated => afterMs start policy.windows.segmentStart
        sourceNs := start }
    let settlements := segment.settledNs.toList.map fun settled =>
      { kind := .segmentSettled segment.index, releaseNs := settled, sourceNs := settled }
    .ok (starts ++
      { kind := .segmentEnd segment.index segment.winner segment.details
        releaseNs := endRelease
        sourceNs := stop } :: settlements)

def matchFact (policy : Policy) (value : Match) : Fact where
  kind := .matchEnd value
  releaseNs := afterMs value.endNs policy.windows.matchEnd
  sourceNs := value.endNs

/-- The facts of a document, segment by segment. -/
def factsOf (document : Document) (policy : Policy) (runStart : Int) :
    Except GameError (List Fact) :=
  match document.state with
  | .unavailable => .ok []
  | .ok => do
    let segments ← document.segments.mapM (segmentFacts policy)
    return { kind := .scheduled
             releaseNs := runStart
             sourceNs := document.scheduledStartNs.getD runStart } ::
      (segments.flatten ++ document.matchResult.toList.map (matchFact policy))

namespace Fact

/-- The fact begins or ends a phase. -/
def isPhase (fact : Fact) : Bool :=
  match fact.kind with
  | .segmentStart _ _ | .segmentEnd _ _ _ | .matchEnd _ => true
  | .scheduled | .segmentSettled _ => false

/-- `2**64 if f.kind == "match_end" else f.index or 0` -/
def rank (fact : Fact) : Int :=
  match fact.kind with
  | .scheduled => 0
  | .segmentStart index _ | .segmentEnd index _ _ | .segmentSettled index => index
  | .matchEnd _ => 2 ^ 64

def priority (fact : Fact) : Int :=
  match fact.kind with
  | .scheduled => -1
  | .segmentStart _ _ => 0
  | .segmentEnd _ _ _ => 1
  | .segmentSettled _ => 2
  | .matchEnd _ => 3

/-- The sort key of the facts. -/
def key (fact : Fact) : Int ×ₗ Int ×ₗ Int :=
  toLex (fact.releaseNs, toLex (fact.rank, fact.priority))

end Fact

/-! ## The timeline -/

structure Timeline where
  view : GameView
  time : Option Int
  facts : List Fact

/-- The view before any fact is released. -/
def initialView (document : Document) (runStart : Int) : GameView where
  phase := match document.state with
    | .ok => .preMatch
    | .unavailable => .unavailable
  segment := none
  phaseSinceNs := runStart
  score := ⟨0, 0⟩
  lastSegment := none
  settled := none
  revision := 0
  reason := document.reason
  sport := document.sport
  game := document.game
  segmentKind := document.segmentKind
  marketTypes := document.marketTypes
  competitors := document.competitors

/-- `Timeline.__init__`. A list of Python holds fewer than `2 ^ 63` items. -/
def Timeline.make (document : Document) (policy : Policy) (runStart : Int) :
    Except GameError Timeline := do
  gamePolicy policy
  if policy.required ∧ document.state = .unavailable then .error (.unavailable document.reason)
  else
    let facts ← factsOf document policy runStart
    if 2 ^ 63 ≤ facts.length then .error .memory
    else
      let phases := (facts.filter Fact.isPhase).map (·.releaseNs)
      require (phases = phases.sortByKey id) "game release windows invert phases"
      require (facts.all (·.releaseNs ≤ maxNatural)) "game release time overflow"
      return {
        view := initialView document runStart
        time := none
        facts := facts.sortByKey Fact.key }

/-- `scores[winner] += 1` -/
def Score.win (score : Score) : Option Side → Score
  | none => score
  | some .home => { score with home := score.home + 1 }
  | some .away => { score with away := score.away + 1 }

/-- A round of the loop of `advance`. -/
def GameView.apply (view : GameView) (fact : Fact) : GameView :=
  let view := { view with revision := view.revision + 1 }
  match fact.kind with
  | .scheduled => view
  | .segmentStart index _ =>
    { view with phase := .inSegment, segment := some index, phaseSinceNs := fact.releaseNs }
  | .segmentEnd index winner details =>
    { view with
      phase := .betweenSegments
      segment := some index
      phaseSinceNs := fact.releaseNs
      score := view.score.win winner
      lastSegment := some ⟨index, winner, fact.sourceNs, details⟩ }
  | .segmentSettled index => { view with settled := some (max (view.settled.getD 0) index) }
  | .matchEnd value =>
    { view with phase := .finished, phaseSinceNs := fact.releaseNs, score := value.score }

/-- The loop of `advance`, with what it has applied. -/
def releaseUntil (time : Int) : List Fact → GameView → GameView × List Fact × List Fact
  | [], view => (view, [], [])
  | fact :: facts, view =>
    if fact.releaseNs ≤ time then
      let (view, pending, applied) := releaseUntil time facts (view.apply fact)
      (view, pending, fact :: applied)
    else (view, fact :: facts, [])

namespace Timeline

/-- `advance` -/
def advance (timeline : Timeline) (time : Int) : Except GameError (Timeline × List Fact) := do
  require (timeline.time.all (· ≤ time)) "game release time order"
  let (view, pending, applied) := releaseUntil time timeline.facts timeline.view
  return ({ view, time := some time, facts := pending }, applied)

/-- One advance after another, with what they have applied. -/
def advanceAll (timeline : Timeline) : List Int → Except GameError (Timeline × List Fact)
  | [] => .ok (timeline, [])
  | time :: times => do
    let (timeline, applied) ← timeline.advance time
    let (timeline, later) ← timeline.advanceAll times
    return (timeline, applied ++ later)

end Timeline

/-! ## Episodes -/

structure EpisodeGame where
  phase : Phase
  segment : Option Int
  score : Score
  revision : Int
deriving DecidableEq

/-- `episode_game` -/
def episodeGame (view : GameView) : EpisodeGame where
  phase := view.phase
  segment := view.segment
  score := view.score
  revision := view.revision

/-- `check_episode_game` -/
def checkEpisodeGame (value : EpisodeGame) : Except GameError Unit := do
  nullableNatural value.segment
  natural value.revision
  checkScore value.score
  require (value.segment.all (0 < ·)) "episode game segment"
  require (!(value.phase = .preMatch || value.phase = .unavailable) || value.segment.isNone)
    "episode game phase/segment"
  require (!(value.phase = .inSegment || value.phase = .betweenSegments) || value.segment.isSome)
    "episode game phase/segment"
  require (!(value.phase = .preMatch || value.phase = .unavailable) ||
    (value.score.home = 0 && value.score.away = 0)) "episode game phase/score"
  require (value.phase ≠ .unavailable || value.revision = 0) "episode game unavailable revision"

end PredictionIndexer.Replay.Game
