import PredictionIndexer.ForStd.GroupStream

/-!
# The attempt script

`replay/streams/attempt.lua`: the operations on the two keys of an attempt, a stream and a state
hash. A script runs without interruption, and what it wrote before it failed stays: each operation
returns its reply beside the keys it left behind.

Numbers travel as decimal strings; the model has the numbers, `published` and `done` being `-1`
before the first entry. An entry ID `n-0` is `n`. The groups and their one consumer `worker` are
made by `setup` and by nothing else, so `membership` always holds and is left out. The named
fields of the state hash are fields, the families `size:<id>`, `done:<group>` and
`joined:<group>` are functions.
-/

namespace PredictionIndexer.Streams

/-- The state hash of an attempt. -/
structure AttemptState where
  groups : List String
  published : Int
  terminal : Option Nat
  poisoned : Bool
  bytes : Int
  limit : Nat
  entry : Nat
  size : Nat → Option Nat
  done : String → Int
  joined : String → Bool

/-- The two keys. -/
structure Attempt where
  stream : GroupStream String String
  state : AttemptState

namespace Attempt

/-- `setup`. `XGROUP CREATE` refuses a group that exists already. -/
def setup (groups : List String) (limit entry : Nat) : Option Attempt :=
  if groups.Nodup then
    some
      { stream := .create groups
        state :=
          { groups := groups
            published := -1
            terminal := none
            poisoned := false
            bytes := 0
            limit := limit
            entry := entry
            size := fun _ => none
            done := fun _ => -1
            joined := fun _ => false } }
  else none

/-- The length of the longest prefix that fits under the byte limit. -/
def fitting (bytes : Int) (limit : Nat) : List Nat → Nat
  | [] => 0
  | size :: sizes =>
    if bytes + size ≤ limit then fitting (bytes + size) limit sizes + 1 else 0

/-- The entries of a call under their IDs. -/
def numbered (first : Nat) (records : List String) : List (Nat × String) :=
  (records.zipIdx first).map fun r => (r.2, r.1)

/-- The size fields of some entries. -/
def setSizes (size : Nat → Option Nat) (entries : List (Nat × String)) : Nat → Option Nat :=
  entries.foldl (fun size e => Function.update size e.1 (some e.2.utf8ByteSize)) size

/-- The state once the first `k` entries of a call are in the stream. -/
def appended (s : AttemptState) (first : Nat) (lastTerminal : Bool) (records : List String)
    (k : Nat) : AttemptState :=
  { s with
    bytes := s.bytes + ((records.take k).map String.utf8ByteSize).sum
    size := setSizes s.size (numbered first (records.take k))
    published := (first + k - 1 : Nat)
    terminal :=
      if k = records.length && lastTerminal then some (first + k - 1) else s.terminal }

/-- The ID that directly follows `previous`. -/
def following (previous : Int) : Int := if previous = -1 then 1 else previous + 1

/-- `append`. Every check precedes every write. -/
def append (a : Attempt) (previous : Int) (first : Nat) (lastTerminal : Bool)
    (records : List String) : Except String Nat × Attempt :=
  let s := a.state
  if s.poisoned then (.error "poisoned", a)
  else if records.isEmpty || s.published ≠ previous || s.terminal.isSome then
    (.error "sequence", a)
  else
    if first = 0 || (first : Int) ≠ following previous then (.error "sequence", a)
    else if records.any (fun r => r.utf8ByteSize > s.entry) then (.error "resource_limit", a)
    else
      let k := fitting s.bytes s.limit (records.map String.utf8ByteSize)
      if k = 0 then (.ok 0, a)
      else
        match a.stream.xaddAll (numbered first (records.take k)) with
        | (false, stream) => (.error "XADD", { a with stream := stream })
        | (true, stream) => (.ok k, ⟨stream, appended s first lastTerminal records k⟩)

/-- `ack`. -/
def ack (a : Attempt) (group : String) (previous last : Int) (ids : List Nat) :
    Except String Nat × Attempt :=
  let s := a.state
  if s.poisoned then (.error "poisoned", a)
  else if s.done group ≠ previous then (.error "sequence", a)
  else
    match ids.head?, ids.getLast? with
    | some lo, some hi =>
      if a.stream.xpending group lo hi ids.length ≠ ids then (.error "not_pending", a)
      else if ids.any (fun id => (s.size id).isNone) then (.error "not_pending", a)
      else
        match a.stream.xackdelAll group ids with
        | (results, stream) =>
          let a := { a with stream := stream }
          if results.any (· = .missing) then (.error "ack_failed", a)
          else
            let deleted := GroupStream.deletedIds ids results
            let freed := (deleted.map fun id => (s.size id).getD 0).sum
            (.ok ids.length,
              { a with
                state :=
                  { s with
                    bytes := s.bytes - freed
                    size := fun id => if id ∈ deleted then none else s.size id
                    done := Function.update s.done group last } })
    | _, _ => (.error "sequence", a)

/-- `join`. -/
def join (a : Attempt) (group : String) : Except String Unit × Attempt :=
  if a.state.poisoned then (.error "poisoned", a)
  else if a.state.joined group then (.error "already_joined", a)
  else
    (.ok (), { a with state := { a.state with joined := Function.update a.state.joined group true } })

/-- `check`: the named progress fields. -/
def check (a : Attempt) : Except String AttemptState :=
  if a.state.poisoned then .error "poisoned" else .ok a.state

/-- `HSET state poisoned 1`. -/
def poison (a : Attempt) : Attempt := { a with state := { a.state with poisoned := true } }

end Attempt

end PredictionIndexer.Streams
