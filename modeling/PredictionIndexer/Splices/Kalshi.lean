import PredictionIndexer.Continuity.Envelope
import PredictionIndexer.Splices.Envelope

/-!
# Kalshi frames

`splices/kalshi/splice.py` (`stream_for`, `frame_cursor`): the lane a frame is recorded on and the
cursor it is recorded with, each derived from the frame's own text.
-/

namespace PredictionIndexer.Splices.Kalshi

open JsonText (Limits)
open Continuity (Stream)
open Envelope (Value Cursor EnvelopeError unsequencedCursor updateRangeCursor)

/-- Why `json.loads` raises: text that is no JSON, or a value beyond Python's own limits, for
    which it is a plain `ValueError` or a `RecursionError`. -/
inductive LoadError where
  | decode
  | limit
deriving DecidableEq

def loads (limits : Limits) (message : String) : Except LoadError Json :=
  match JsonText.parse message.toList with
  | none => .error .decode
  | some text =>
    if text.within limits.digits limits.depth then .ok text.toPython else .error .limit

def frameStream : Stream := .publicBook

/-- `STREAM_BY_TYPE`. -/
def streamByType : List (String × Stream) :=
  [("orderbook_snapshot", .publicBook), ("orderbook_delta", .publicBook),
    ("trade", .publicTrade), ("ticker", .publicQuote)]

/-- The lane of a message type. `str` of a value that is no text is none of the types. -/
def streamOf (kind : Option Json) : Stream :=
  match kind with
  | some (.string kind) => (streamByType.lookup kind).getD frameStream
  | _ => frameStream

def streamFor (limits : Limits) (message : String) : Except LoadError Stream :=
  match loads limits message with
  | .ok (.object fields) => .ok (streamOf (Json.field? fields "type"))
  | .ok _ => .ok frameStream
  | .error .decode => .ok frameStream
  | .error .limit => .error .limit

/-- What `frame_cursor` raises. -/
inductive CursorError where
  | load
  | envelope (e : EnvelopeError)
deriving DecidableEq

/-- A `seq` that the cursor is made of: a natural number, and no `bool`. -/
def usableSeq : Option Json → Option Nat
  | some (.number n) => if n < 0 then none else some n.toNat
  | _ => none

/-- The `seq` of a message that a cursor can be made of. -/
def seqOf (limits : Limits) (message : String) : Option Nat :=
  match loads limits message with
  | .ok (.object fields) => usableSeq (Json.field? fields "seq")
  | _ => none

/-- The cursor of a loaded message. -/
def cursorOf (counter : Nat) (payload : Json) : Except EnvelopeError Cursor :=
  match payload with
  | .object fields =>
    match usableSeq (Json.field? fields "seq") with
    | some sequence =>
      updateRangeCursor (.int sequence) (.int sequence) (.int (max (sequence - 1 : Int) 0))
    | none => unsequencedCursor (.int counter)
  | _ => unsequencedCursor (.int counter)

def frameCursor (limits : Limits) (counter : Nat) (message : String) :
    Except CursorError Cursor :=
  match loads limits message with
  | .ok payload => (cursorOf counter payload).mapError .envelope
  | .error .decode => (unsequencedCursor (.int counter)).mapError .envelope
  | .error .limit => .error .load

end PredictionIndexer.Splices.Kalshi
