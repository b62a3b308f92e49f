import PredictionIndexer.ForStd.Raising
import PredictionIndexer.Splices.Envelope

/-!
# The connection loop

`splices/common/base.py` (`_emit`, `_emit_frame`, `_emit_control`, `_reload_targets`,
`_run_one_connection`, `_run_until_stopped`) on top of `LaneWriter.append`: what one splice process
puts into its writer's queue. What the process cannot decide is given from outside: what arrives on
the socket, what a venue's hooks do, and where an exception or a cancellation strikes.

A connection is observed up to a cancellation. The clocks' alert, the counts that only a summary
shows and the sleeps between connections are left out; no record depends on them.
-/

namespace PredictionIndexer.Splices.Base

open Durable Durable.Program
open Continuity (SourceCursor Venue Stream RecordKind)
open Envelope (Given buildEnvelope encodeEnvelope)

/-- Why a task stops: it is cancelled, or an exception is raised. -/
inductive Stop where
  | cancelled
  | raised (text : String)
deriving DecidableEq

/-- `CaptureClock.sample`. -/
structure ClockSample where
  visibleNs : Nat
  monotonicNs : Nat

/-- What one record meets on its way into the queue. -/
structure Passage where
  /-- The text of a control record, whose times and digests are not the model's. -/
  detail : Except Stop (List Rune)
  /-- The clock's reading, or whatever is raised before the record is queued. -/
  clock : Except Stop ClockSample
  /-- What the writer's thread has failed with by then. -/
  failed : Option String := none
  /-- The task is cancelled while the queue is full. -/
  cancelled : Bool := false
  /-- What the writer's thread fails with while the queue is full. -/
  failing : Option String := none

/-- A venue's own part. -/
structure Venues where
  venue : Venue
  recordPrefix : String
  streamFor : List Rune → Except Stop Stream
  frameCursor : Nat → List Rune → Except Stop (Option SourceCursor)
  /-- `bytes.decode("utf-8", errors="replace")`. -/
  decodeReplacing : List UInt8 → List Rune
  /-- How many digits of an integer Python writes. -/
  digits : Nat

/-- `ConnectionOutcome`. -/
structure ConnectionOutcome where
  clean : Bool := false
  stop : Bool := false

structure SpliceState where
  deliveryIndex : Nat
  localCounter : Nat := 0
  epoch : String := ""
  /-- `Spool._opened_epochs`. -/
  openedEpochs : List String := []
  /-- The locals of the connection that runs. -/
  outcome : ConnectionOutcome := {}
  /-- The records the writer accepted, in the order of the queue. -/
  tape : List (Given × List UInt8) := []
  /-- `LaneWriter._fatal`. -/
  fatal : Option String := none
  /-- Every record that took a local counter, by its epoch, and whether it was queued. Only the
      proofs read it. -/
  attempts : List (String × Bool) := []
  passages : List Passage := []

/-- A computation of a splice. -/
abbrev SpliceProgram : Type → Type := Program SpliceState Stop

/-! ## Records -/

/-- The record's identifier. -/
def recordIdOf (recordPrefix epoch : String) (counter : Nat) : String :=
  recordPrefix ++ "-" ++ epoch ++ "-" ++ toString counter

/-- The text of a Python string of the source's own. -/
def runes (s : String) : List Rune := s.toList.map .char

/-- What meets the next record; nothing does when nothing is given. -/
def nextPassage : SpliceProgram Passage :=
  effect fun s => ({ s with passages := s.passages.tail },
    .ok (s.passages.headD { detail := .ok [], clock := .ok ⟨0, 0⟩ }))

/-- The arguments that `_emit` builds an envelope from. -/
def given (v : Venues) (s : SpliceState) (clock : ClockSample) (stream : Stream)
    (kind : RecordKind) (payload : List Rune) (cursor : Option SourceCursor) : Given where
  deliveryIndex := s.deliveryIndex
  recordId := runes (recordIdOf v.recordPrefix s.epoch s.localCounter)
  visibleNs := clock.visibleNs
  monotonicNs := some clock.monotonicNs
  venue := v.venue
  stream := stream
  connectionEpoch := runes s.epoch
  localCounter := s.localCounter
  sourceCursor := cursor
  kind := kind
  rawPayload := payload
  envelopeVersion := Envelope.envelopeVersion

/-- A record goes into the queue. -/
def SpliceState.queued (g : Given) (line : List UInt8) (failing : Option String)
    (s : SpliceState) : SpliceState :=
  { s with
    tape := s.tape ++ [(g, line)]
    fatal := failing
    attempts := s.attempts.dropLast ++ [(s.epoch, true)] }

/-- `LaneWriter.append`. The writer is closed only when the loop has ended. -/
def append (passage : Passage) (g : Given) (line : List UInt8) : SpliceProgram Unit := do
  write fun s => { s with fatal := s.fatal.or passage.failed }
  let s ← read
  match s.fatal with
  | some text => fail (.raised text)
  | none =>
    if passage.cancelled then fail .cancelled
    else do
      write (SpliceState.queued g line passage.failing)
      match passage.failing with
      | some text => fail (.raised text)
      | none => pure ()

/-- The local counter moves. -/
def SpliceState.counted (s : SpliceState) : SpliceState :=
  { s with localCounter := s.localCounter + 1, attempts := s.attempts ++ [(s.epoch, false)] }

/-- `_emit`. -/
def emit (v : Venues) (passage : Passage) (stream : Stream) (kind : RecordKind)
    (payload : List Rune) (cursor : Option SourceCursor) : SpliceProgram Unit := do
  write SpliceState.counted
  let clock ← lift passage.clock
  let s ← read
  let g := given v s clock stream kind payload cursor
  match buildEnvelope g.arguments with
  | .error _ => fail (.raised "EnvelopeError")
  | .ok record =>
    match encodeEnvelope v.digits record with
    | .error _ => fail (.raised "encode_envelope")
    | .ok line => do
      append passage g line
      write fun s => { s with deliveryIndex := s.deliveryIndex + 1 }

/-- `_emit_control`. -/
def emitControl (v : Venues) (kind : RecordKind) : SpliceProgram Unit := do
  let passage ← nextPassage
  let payload ← lift passage.detail
  emit v passage .process kind payload none

/-- What a socket delivers. -/
inductive Message where
  | text (t : List Rune)
  | binary (bytes : List UInt8)

/-- The text of a message: a binary frame that is no UTF-8 leaves a fault record. -/
def textOf (v : Venues) (message : Message) : SpliceProgram (List Rune) :=
  match message with
  | .text t => pure t
  | .binary bytes =>
    match String.fromUTF8? ⟨bytes.toArray⟩ with
    | some t => pure (runes t)
    | none => do
      emitControl v .fault
      pure (v.decodeReplacing bytes)

/-- `_emit_frame`. -/
def emitFrame (v : Venues) (message : Message) : SpliceProgram (List Rune) := do
  let text ← textOf v message
  let stream ← lift (v.streamFor text)
  let s ← read
  let cursor ← lift (v.frameCursor (s.localCounter + 1) text)
  let passage ← nextPassage
  emit v passage stream .venueFrame text cursor
  pure text

/-! ## What happens to a connection -/

/-- A call into a venue's code: control records of its own, then it returns or stops. -/
structure Hook where
  records : Nat := 0
  stop : Option Stop := none

/-- `load_targets` in the running loop. -/
inductive Reload where
  | unreadable
  | unchanged
  | metadataChanged
  | subscriptionChanged
  | stopped (stop : Stop)

/-- `transport.recv` under a timeout. -/
inductive Received where
  | timeout
  | message (m : Message)
  | stopped (stop : Stop)

/-- One round of the loop. What is not due is `none`. -/
structure Turn where
  timeUp : Bool := false
  reload : Option Reload := none
  heartbeat : Option Hook := none
  sweep : Option Hook := none
  received : Received := .timeout
  afterFrame : Hook := {}

/-- Everything a connection is not master of. -/
structure Script where
  /-- `uuid4().hex`. -/
  epoch : String
  /-- `open_connection` fails. -/
  enter : Option Stop := none
  subscription : Hook := {}
  turns : List Turn := []
  /-- Closing the transport fails. -/
  exit : Option Stop := none
  /-- `spool.sync` fails. -/
  sync : Option Stop := none

/-- An await that may stop. -/
def await (stop : Option Stop) : SpliceProgram Unit :=
  match stop with
  | some stop => fail stop
  | none => pure ()

def controls (v : Venues) : Nat → SpliceProgram Unit
  | 0 => pure ()
  | n + 1 => do
    emitControl v .control
    controls v n

def Hook.run (v : Venues) (hook : Hook) : SpliceProgram Unit := do
  controls v hook.records
  await hook.stop

def Hook.runIfDue (v : Venues) : Option Hook → SpliceProgram Unit
  | some hook => hook.run v
  | none => pure ()

/-- `_reload_targets`, and whether the connection ends for a new subscription. -/
def reloadTargets (v : Venues) : Option Reload → SpliceProgram Bool
  | none => pure false
  | some .unreadable => do
    emitControl v .fault
    pure false
  | some .unchanged => pure false
  | some .metadataChanged => do
    emitControl v .control
    pure false
  | some .subscriptionChanged => do
    emitControl v .control
    pure true
  | some (.stopped stop) => fail stop

/-- The frame of a turn, if one arrives. -/
def receive (v : Venues) (turn : Turn) : SpliceProgram Unit :=
  match turn.received with
  | .timeout => pure ()
  | .stopped stop => fail stop
  | .message m => do
    let _ ← emitFrame v m
    turn.afterFrame.run v

/-- The body of the loop. When nothing more is given the task is cancelled. -/
def turns (v : Venues) : List Turn → SpliceProgram Unit
  | [] => fail .cancelled
  | turn :: rest =>
    if turn.timeUp then do
      write fun s => { s with outcome := ⟨true, true⟩ }
      emitControl v .control
    else do
      if ← reloadTargets v turn.reload then
        write fun s => { s with outcome.clean := true }
      else do
        Hook.runIfDue v turn.heartbeat
        Hook.runIfDue v turn.sweep
        receive v turn
        turns v rest

/-- The inside of `async with`. -/
def connected (v : Venues) (script : Script) : SpliceProgram Unit := do
  emitControl v .control
  script.subscription.run v
  emitControl v .control
  turns v script.turns

/-- `async with`: what closing the transport raises takes the place of what the body raised. -/
def session (v : Venues) (script : Script) : SpliceProgram Unit := do
  await script.enter
  let body ← caught (connected v script)
  await script.exit
  lift body

/-- The `except` clauses. -/
def handle (v : Venues) (script : Script) : Except Stop Unit → SpliceProgram Unit
  | .ok () => pure ()
  | .error .cancelled => do
    emitControl v .control
    await script.sync
    fail .cancelled
  | .error (.raised _) => emitControl v .fault

/-- The `finally` clause. -/
def closing (v : Venues) : SpliceProgram Unit := do
  let s ← read
  if s.epoch = "" then pure () else emitControl v .control

/-- `Spool.begin_epoch`. -/
def beginEpoch (epoch : String) : SpliceProgram Unit := do
  let s ← read
  if epoch ∈ s.openedEpochs then fail (.raised ("epoch already used by this splice: " ++ epoch))
  else write fun s => { s with openedEpochs := epoch :: s.openedEpochs }

/-- `_run_one_connection`. -/
def runOneConnection (v : Venues) (script : Script) : SpliceProgram ConnectionOutcome := do
  write fun s => { s with epoch := script.epoch, localCounter := 0, outcome := {} }
  beginEpoch script.epoch
  let body ← caught (session v script)
  let handled ← caught (handle v script body)
  closing v
  lift handled
  let s ← read
  pure s.outcome

/-- `_run_until_stopped`: one connection after another. -/
def runUntilStopped (v : Venues) : List Script → SpliceProgram Unit
  | [] => pure ()
  | script :: rest => do
    let outcome ← runOneConnection v script
    if outcome.stop then pure () else runUntilStopped v rest

end PredictionIndexer.Splices.Base
