import PredictionIndexer.ForStd.Json
import PredictionIndexer.ForStd.PyInt
import PredictionIndexer.ForStd.Result
import PredictionIndexer.ForStd.SortByKey

/-!
# Game state

`validate` of `replay/game_state.py`, which admits a prepared game document for the context of a
replay. The closed schema and the types of its values are those of the fields here; what is checked
of the values is what the source checks, in its order. `casefold` is `str.casefold`.
-/

namespace PredictionIndexer.Replay.Game

inductive GameError where
  | protocol (message : String)
  | unavailable (reason : Option String)
  | typeError
  | memory
deriving DecidableEq

/-- `require` of `replay/streams/protocol.py` -/
def require (ok : Bool) (message : String) : Except GameError Unit :=
  if ok then .ok () else .error (.protocol message)

inductive Side where
  | home
  | away
deriving DecidableEq

inductive Availability where
  | ok
  | unavailable
deriving DecidableEq

structure Score where
  home : Int
  away : Int
deriving DecidableEq

structure Segment where
  index : Int
  startNs : Option Int
  startEstimated : Bool
  endNs : Option Int
  settledNs : Option Int
  winner : Option Side
  details : Json

structure Match where
  endNs : Int
  winner : Option Side
  score : Score

structure Source where
  name : String
  pathPrefix : String
  timelineSha256 : String

structure Competitor where
  label : Option String
  participant : Option Int
deriving DecidableEq

structure Competitors where
  home : Competitor
  away : Competitor
deriving DecidableEq

structure Document where
  version : Int
  eventId : String
  state : Availability
  reason : Option String
  source : Option Source
  sport : Option String
  game : Option String
  marketTypes : List String
  competitors : Competitors
  scheduledStartNs : Option Int
  segmentKind : Option String
  segments : List Segment
  matchResult : Option Match

/-- What `context_header` reads of a context: sport and game of each evidence row, and the types of
the document's markets. -/
structure Context where
  provider : Option String
  eventId : String
  evidence : List (Option String × Option String)
  marketTypes : List String
  participants : List String

def maxNatural : Int := 2 ^ 64 - 1

def natural (value : Int) : Except GameError Unit :=
  require (0 ≤ value ∧ value ≤ maxNatural) "game state unsigned integer"

/-- `natural(value, nullable=True)` -/
def nullableNatural (value : Option Int) : Except GameError Unit :=
  require (value.all fun n => 0 ≤ n ∧ n ≤ maxNatural) "game state unsigned integer"

/-- `normalized_label` -/
def normalizedLabel (casefold : String → String) (value : String) : String :=
  " ".intercalate (((casefold value).splitToList PyInt.isSpace).filter (· ≠ ""))

/-- The one participant of a label. -/
def participantOf (casefold : String → String) (participants : List String)
    (label : Option String) : Option Int :=
  match label with
  | none => none
  | some label =>
    match (participants.zipIdx.filter fun p =>
        normalizedLabel casefold p.1 = normalizedLabel casefold label) with
    | [p] => some p.2
    | _ => none

/-- `align` -/
def align (casefold : String → String) (home away : Option String) (participants : List String) :
    Competitors :=
  let homeParticipant := participantOf casefold participants home
  let awayParticipant := participantOf casefold participants away
  if homeParticipant ≠ none ∧ homeParticipant = awayParticipant then
    ⟨⟨home, none⟩, ⟨away, none⟩⟩
  else ⟨⟨home, homeParticipant⟩, ⟨away, awayParticipant⟩⟩

def isHexDigit (c : Char) : Bool := "0123456789abcdef".toList.contains c

/-- `sha` -/
def isSha256 (value : String) : Bool := value.length = 64 && value.toList.all isHexDigit

/-- `event:d1:` and 64 digits. -/
def isEventId (value : String) : Bool :=
  value.toList.take 9 = "event:d1:".toList && isSha256 (String.ofList (value.toList.drop 9))

structure Header where
  eventId : String
  sport : Option String
  game : Option String
  marketTypes : List String

/-- `context_header` -/
def contextHeader (context : Context) : Except GameError Header := do
  require (context.provider = some "universe") "game state requires pinned event identity"
  require (isEventId context.eventId) "game state event identity"
  match context.evidence with
  | [] => .error (.protocol "game state context evidence")
  | first :: _ =>
    require (context.evidence.all (· = first)) "game state context header conflict"
    return {
      eventId := context.eventId
      sport := first.1
      game := first.2
      marketTypes := context.marketTypes.sortedSet }

/-- `_label` -/
def checkLabel (value : Option String) : Except GameError Unit :=
  require (value.all fun label => 0 < label.length ∧ label.length ≤ 4096) "game state label"

def checkScore (score : Score) : Except GameError Unit := do
  natural score.home
  natural score.away

mutual

/-- No number of the value is an infinity or no number. -/
def finite : Json → Bool
  | .float none => false
  | .array items => finiteItems items
  | .object fields => finiteFields fields
  | _ => true

def finiteItems : List Json → Bool
  | [] => true
  | v :: vs => finite v && finiteItems vs

def finiteFields : List (String × Json) → Bool
  | [] => true
  | (_, v) :: fs => finite v && finiteFields fs

end

/-- `previous_index` and `previous_end` in front of a segment, and behind it. -/
def checkSegment (previous : Int × Option Int) (segment : Segment) :
    Except GameError (Int × Option Int) := do
  natural segment.index
  require (previous.1 < segment.index) "game state segment order"
  nullableNatural segment.startNs
  nullableNatural segment.endNs
  nullableNatural segment.settledNs
  match segment.endNs with
  | none => .error (.protocol "game state segment time order")
  | some stop =>
    require (segment.startNs.all (· ≤ stop) && segment.settledNs.all (stop ≤ ·))
      "game state segment time order"
    require (previous.2.all (· ≤ segment.startNs.getD stop)) "game state overlapping segments"
    return (segment.index, some stop)

def checkSource (source : Source) : Except GameError Unit := do
  require (source.name ≠ "" && source.pathPrefix ≠ "") "game state source identity"
  checkLabel source.name
  checkLabel source.pathPrefix
  require (isSha256 source.timelineSha256) "invalid wire value"

/-- The checks of a document that has no state. -/
def checkUnavailable (value : Document) : Except GameError Unit :=
  require ([some "no_source", some "no_fetch", some "incomplete"].contains value.reason &&
    value.segments.isEmpty && value.matchResult.isNone) "unavailable game state"

/-- The checks of a document that has one. -/
def checkAvailable (value : Document) : Except GameError Unit := do
  require (value.reason.isNone && value.source.isSome) "available game state source"
  let previous ← value.segments.foldlM checkSegment (0, none)
  require (value.segments.isEmpty || value.segmentKind.isSome) "game state segment kind"
  match value.matchResult with
  | none => return
  | some result =>
    natural result.endNs
    require (previous.2.all (· ≤ result.endNs)) "game state match time order"
    checkScore result.score

/-- The checks that any document has to pass. -/
def checkHeader (casefold : String → String) (value : Document) (context : Context) :
    Except GameError Unit := do
  require (value.segments.all fun segment => finite segment.details) "game state nonfinite number"
  require (value.version = 1) "game state version"
  let header ← contextHeader context
  require (value.eventId = header.eventId && value.sport = header.sport &&
    value.game = header.game && value.marketTypes = header.marketTypes)
    "game state event/header binding"
  checkLabel value.competitors.home.label
  checkLabel value.competitors.away.label
  require (value.competitors = align casefold value.competitors.home.label
    value.competitors.away.label context.participants) "game state competitor alignment"
  nullableNatural value.scheduledStartNs
  checkLabel value.segmentKind
  match value.source with
  | none => return
  | some source => checkSource source

/-- `validate` -/
def validate (casefold : String → String) (value : Document) (context : Context) :
    Except GameError Unit := do
  checkHeader casefold value context
  match value.state with
  | .unavailable => checkUnavailable value
  | .ok => checkAvailable value

end PredictionIndexer.Replay.Game
