import PredictionIndexer.Streams.Attempt
import PredictionIndexer.Streams.Decoder

/-!
# Consumers of an attempt

`replay/streams/consumer.py`, and the system it is part of: one stream, a publisher that appends
to it and one `Consumer` for each group. A poll is several commands to the server with the hook
calls of a batch in between, and other participants act between any two of them. So a consumer is
a state machine over the places a poll can stand at, and a run of the system is a list of actions
in any order.

A command either is executed and its reply arrives, or is executed and its reply is lost, or is
not executed; in the last two cases the consumer fails. Anyone may raise the shared poison flag at
any time, which covers every best-effort attempt to do so. The publisher is not modelled: its
calls have arbitrary arguments.

Of the decoder the consumer uses four things, the fields of `RecordDecoder`.
-/

namespace PredictionIndexer.Streams

/-- What a consumer uses of its decoder. -/
structure RecordDecoder (δ : Type) where
  fresh : δ
  sequence : δ → Int
  terminal : δ → Bool
  /-- The decoder after a record, or nothing if the record was refused. -/
  apply : δ → String → Option δ
  sequence_fresh : sequence fresh = -1
  sequence_apply : ∀ d r d', apply d r = some d' → sequence d' = sequence d + 1

/-- The decoder of `protocol.py`, before its initial record and after it. `loads` is the parser;
`accepts` is the validation of the initial record, which yields the planned books. -/
def Decoder.records (sha256 : String → String) (loads : String → Option Json)
    (accepts : Json → Option (List (PlanKey × Nat))) (runId attemptId : String) (limit : Nat) :
    RecordDecoder (Option Decoder) where
  fresh := none
  sequence
    | none => -1
    | some d => d.sequence
  terminal
    | none => false
    | some d => d.terminal
  apply d data :=
    if data.utf8ByteSize > limit then none
    else
      match d, loads data with
      | _, none => none
      | none, some r => (accepts r).map fun plans => some (Decoder.initial runId attemptId plans)
      | some d, some r =>
        match d.apply sha256 r with
        | (d', none) => some (some d')
        | (_, some _) => none
  sequence_fresh := rfl
  sequence_apply := by
    intro d data d' h
    split at h
    · cases h
    split at h
    · cases h
    · obtain ⟨plans, -, rfl⟩ := Option.map_eq_some_iff.mp h
      rfl
    · next d _ r _ =>
      split at h
      · next d₁ happly =>
        cases h
        simp [Decoder.sequence_of_apply happly]
      · cases h

/-- Where a consumer stands. -/
inductive Phase where
  /-- Not constructed yet. -/
  | absent
  /-- Between two calls of its methods. -/
  | idle
  /-- In a poll, past the `check`. -/
  | checked
  /-- In a poll, with the entries still to process and the IDs of those processed. -/
  | working (entries : List (Nat × String)) (ids : List Nat)
  /-- `_poisoned` is set: every method raises. -/
  | failed
deriving DecidableEq

structure Consumer (δ : Type) where
  batchEntries : Nat
  batchBytes : Nat
  decoder : δ
  completed : Int
  phase : Phase

/-- What became of a command. -/
inductive Reply where
  | arrived
  | lost
  | dropped
deriving DecidableEq

/-- The system, with what it has done so far: every `XADD`, every hook call that returned, every
acknowledged ID and every `finish` that returned true. -/
structure System (δ : Type) where
  attempt : Attempt
  consumer : String → Consumer δ
  history : List (Nat × String)
  hooked : String → List (Nat × String)
  acked : String → List Nat
  reported : String → Bool

inductive Action where
  | append (previous : Int) (first : Nat) (lastTerminal : Bool) (records : List String)
  | poison
  | join (group : String) (reply : Reply)
  | check (group : String) (reply : Reply)
  | read (group : String) (reply : Reply)
  /-- The next entry of the batch; `returns` says whether the hook returned. -/
  | process (group : String) (returns : Bool)
  | ack (group : String) (reply : Reply)
  | finish (group : String) (reply : Reply)
  /-- `abort`, or the death of the consumer's process, at any place. -/
  | abort (group : String)
deriving DecidableEq

namespace System

variable {δ : Type}

def setPhase (s : System δ) (group : String) (phase : Phase) : System δ :=
  { s with
    consumer := Function.update s.consumer group { s.consumer group with phase := phase } }

/-- `_fail`, up to the attempt to raise the flag. -/
def fail (s : System δ) (group : String) : System δ := s.setPhase group .failed

/-- The rest of a command once the server has answered with an error or the reply is known. -/
def settle (s : System δ) (group : String) (reply : Reply) (ok : Bool)
    (next : System δ → System δ) : System δ :=
  if ok && reply = .arrived then next s else s.fail group

/-- The publisher's call. -/
def append (s : System δ) (previous : Int) (first : Nat) (lastTerminal : Bool)
    (records : List String) : System δ :=
  match s.attempt.append previous first lastTerminal records with
  | (.ok k, a) =>
    { s with attempt := a, history := s.history ++ Attempt.numbered first (records.take k) }
  | (.error _, a) => { s with attempt := a }

/-- `Consumer.__init__`. A second one for a group is a participant that fails at once. -/
def join (s : System δ) (group : String) (reply : Reply) : Option (System δ) :=
  if (s.consumer group).phase ≠ .absent then none
  else
    match reply with
    | .dropped => some (s.fail group)
    | _ =>
      match s.attempt.join group with
      | (r, a) =>
        some ({ s with attempt := a }.settle group reply r.isOk (·.setPhase group .idle))

/-- A poll begins: a closed consumer returns at once. -/
def check (s : System δ) (dec : RecordDecoder δ) (group : String) (reply : Reply) :
    Option (System δ) :=
  let c := s.consumer group
  if c.phase ≠ .idle || dec.terminal c.decoder then none
  else some (s.settle group reply s.attempt.check.isOk (·.setPhase group .checked))

/-- `xreadgroup` and the checks on the batch. -/
def read (s : System δ) (group : String) (reply : Reply) : Option (System δ) :=
  let c := s.consumer group
  if c.phase ≠ .checked then none
  else
    match reply with
    | .dropped => some (s.fail group)
    | _ =>
      match s.attempt.stream.xreadgroup group c.batchEntries with
      | (entries, stream) =>
        let fits := entries.length ≤ c.batchEntries &&
          (entries.map fun e => e.2.utf8ByteSize).sum ≤ c.batchBytes
        some ({ s with attempt := { s.attempt with stream := stream } }.settle group reply fits
          (·.setPhase group (.working entries [])))

/-- One round of the loop over the batch. -/
def process (s : System δ) (dec : RecordDecoder δ) (group : String) (returns : Bool) :
    Option (System δ) :=
  let c := s.consumer group
  match c.phase with
  | .working (e :: entries) ids =>
    if (e.1 : Int) ≠ dec.sequence c.decoder + 2 then some (s.fail group)
    else
      match dec.apply c.decoder e.2 with
      | none => some (s.fail group)
      | some d =>
        if returns then
          some { s with
            consumer := Function.update s.consumer group
              { c with decoder := d, phase := .working entries (ids ++ [e.1]) }
            hooked := Function.update s.hooked group (s.hooked group ++ [e]) }
        else some (s.fail group)
  | _ => none

/-- The server has acknowledged a batch. -/
def acknowledge (s : System δ) (group : String) (a : Attempt) (ids : List Nat) : System δ :=
  { s with attempt := a, acked := Function.update s.acked group (s.acked group ++ ids) }

/-- The consumer knows it has, and the poll returns. -/
def completePoll (s : System δ) (group : String) (last : Int) : System δ :=
  { s with
    consumer := Function.update s.consumer group
      { s.consumer group with completed := last, phase := .idle } }

/-- The end of a poll: the batch is acknowledged, if there was one. -/
def ack (s : System δ) (dec : RecordDecoder δ) (group : String) (reply : Reply) :
    Option (System δ) :=
  let c := s.consumer group
  match c.phase with
  | .working [] [] => some (s.setPhase group .idle)
  | .working [] ids =>
    let last := dec.sequence c.decoder + 1
    match reply with
    | .dropped => some (s.fail group)
    | _ =>
      match s.attempt.ack group c.completed last ids with
      | (.error _, a) => some ({ s with attempt := a }.fail group)
      | (.ok _, a) =>
        some ((s.acknowledge group a ids).settle group reply true (·.completePoll group last))
  | _ => none

/-- Every group is done with the terminal entry. -/
def complete (state : AttemptState) : Bool :=
  match state.terminal with
  | none => false
  | some t => state.groups.all fun g => state.done g = (t : Int)

/-- `finish`: a decoder without its terminal record fails the attempt. -/
def finish (s : System δ) (dec : RecordDecoder δ) (group : String) (reply : Reply) :
    Option (System δ) :=
  let c := s.consumer group
  if c.phase ≠ .idle then none
  else if !dec.terminal c.decoder then some (s.fail group)
  else
    match s.attempt.check with
    | .error _ => some (s.fail group)
    | .ok state =>
      some (s.settle group reply true fun s =>
        { s with
          reported := Function.update s.reported group (s.reported group || complete state) })

/-- One action. It is impossible where the code could not perform it. -/
def step (dec : RecordDecoder δ) (s : System δ) : Action → Option (System δ)
  | .append previous first lastTerminal records =>
    some (s.append previous first lastTerminal records)
  | .poison => some { s with attempt := s.attempt.poison }
  | .join group reply => if group ∈ s.attempt.state.groups then s.join group reply else none
  | .check group reply =>
    if group ∈ s.attempt.state.groups then s.check dec group reply else none
  | .read group reply => if group ∈ s.attempt.state.groups then s.read group reply else none
  | .process group returns =>
    if group ∈ s.attempt.state.groups then s.process dec group returns else none
  | .ack group reply => if group ∈ s.attempt.state.groups then s.ack dec group reply else none
  | .finish group reply =>
    if group ∈ s.attempt.state.groups then s.finish dec group reply else none
  | .abort group =>
    if group ∈ s.attempt.state.groups ∧ (s.consumer group).phase ≠ .absent then
      some (s.fail group)
    else none

def run (dec : RecordDecoder δ) (s : System δ) : List Action → Option (System δ)
  | [] => some s
  | a :: as => (s.step dec a).bind fun s => s.run dec as

/-- The system after `setup`; `batch g` is the entry and byte budget of the consumer of `g`. -/
def start (dec : RecordDecoder δ) (groups : List String) (limit entry : Nat)
    (batch : String → Nat × Nat) : Option (System δ) :=
  (Attempt.setup groups limit entry).map fun a =>
    { attempt := a
      consumer := fun g =>
        { batchEntries := (batch g).1
          batchBytes := (batch g).2
          decoder := dec.fresh
          completed := -1
          phase := .absent }
      history := []
      hooked := fun _ => []
      acked := fun _ => []
      reported := fun _ => false }

end System

end PredictionIndexer.Streams
