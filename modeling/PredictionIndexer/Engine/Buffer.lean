import PredictionIndexer.ForStd.Result

/-!
# The publish buffer

`engine/crates/transport/src/buffer.rs`: entries are inserted in wire order. At `batch` buffered
entries one non-blocking drain appends what the queue takes; if any remain, no further drain is
attempted until `hardCapacity batch`, where a blocking drain appends everything and waits while
the queue is full. `flush` is the same blocking drain.

The stream backend is a parameter: `append` is a function of the backend's state, which may hold
everything the consumers will ever do. A method that takes `&mut self` returns the state it left
behind beside its result, errors included. The loop of `drain` runs on fuel, since nothing in the
buffer bounds how long the queue stays full. Of the clock, the model keeps the durations handed
to `sleep`, in milliseconds, and not the time that passed.
-/

namespace PredictionIndexer.Engine

open Fallible

/-- The errors of the transport crate. -/
inductive TransportError where
  | protocol (message : String)
  | risk (message : String)
  | transport
  | resource
  | poisoned
deriving DecidableEq

/-- `FULL_BACKOFF_START` and `FULL_BACKOFF_CAP`, in milliseconds. -/
def fullBackoffStart : Nat := 1
def fullBackoffCap : Nat := 50

/-- `MIN_BATCH_ENTRIES` and `MAX_BATCH_ENTRIES`. -/
def minBatchEntries : Nat := 1
def maxBatchEntries : Nat := 1024

/-- `usize::clamp` to the closed bounds of the batch size. -/
def clampBatch (batch : Nat) : Nat :=
  if batch < minBatchEntries then minBatchEntries
  else if maxBatchEntries < batch then maxBatchEntries
  else batch

/-- Hard buffer capacity for a batch size: `ceil(1.25 × batch)`. -/
def hardCapacity (batch : Nat) : Nat := batch + (batch + 3) / 4

/-- What the buffer uses of a stream backend: `append state first entries terminal`. -/
structure StreamSink (σ : Type) where
  append : σ → Nat → List String → Bool → Except TransportError Nat × σ

/-- One encoded wire record awaiting publication. -/
structure Entry where
  sequence : Nat
  record : String
  terminal : Bool
deriving DecidableEq

/-- Diagnostic publication totals, those of `QueueWaits` among them. -/
structure PublishStats where
  fullReplies : Nat := 0
  batches : Nat := 0
  entries : Nat := 0
deriving DecidableEq

structure PublishBuffer (σ : Type) where
  sink : σ
  entries : List String
  /-- Wire sequence of the first buffered entry, equivalently of the next append. -/
  first : Nat
  /-- Wire sequence the next insert must carry. -/
  next : Nat
  terminal : Bool
  batch : Nat
  capacity : Nat
  maxEntryBytes : Nat
  /-- Upper bound on one append call's payload. -/
  maxCallBytes : Nat
  /-- A non-blocking drain left entries behind; wait for the hard capacity. -/
  attempted : Bool
  stats : PublishStats
  /-- The durations `sleep` was called with, oldest first. -/
  slept : List Nat
deriving DecidableEq

namespace PublishBuffer

variable {σ : Type}

def new (sink : σ) (batch maxEntryBytes maxQueueBytes : Nat) : PublishBuffer σ where
  sink := sink
  entries := []
  first := 0
  next := 0
  terminal := false
  batch := clampBatch batch
  capacity := hardCapacity (clampBatch batch)
  maxEntryBytes := maxEntryBytes
  maxCallBytes := max maxQueueBytes maxEntryBytes
  attempted := false
  stats := {}
  slept := []

/-- Entries inserted but not yet appended. -/
def buffered (b : PublishBuffer σ) : Nat := b.entries.length

/-- The loop of `call_len` at `index`, having counted `bytes`. The entries are in memory together,
so the sum of their lengths never reaches the point where `saturating_add` saturates. -/
def callLenFrom (maxCallBytes : Nat) : Nat → Nat → List String → Nat
  | index, _, [] => index
  | index, bytes, entry :: entries =>
    if bytes + entry.utf8ByteSize > maxCallBytes then max index 1
    else callLenFrom maxCallBytes (index + 1) (bytes + entry.utf8ByteSize) entries

/-- Longest buffered prefix within `maxCallBytes`; at least one entry. -/
def callLen (b : PublishBuffer σ) : Nat := callLenFrom b.maxCallBytes 0 0 b.entries

/-- The bookkeeping of an append that accepted some entries. -/
def accept (b : PublishBuffer σ) (accepted : Nat) : PublishBuffer σ :=
  { b with
    entries := b.entries.drop accepted
    first := b.first + accepted
    stats :=
      { b.stats with
        batches := b.stats.batches + 1
        entries := b.stats.entries + accepted } }

/-- The bookkeeping of a short reply in a blocking drain. -/
def wait (b : PublishBuffer σ) (backoff : Nat) : PublishBuffer σ :=
  { b with
    stats := { b.stats with fullReplies := b.stats.fullReplies + 1 }
    slept := b.slept ++ [backoff] }

/-- The loop of `drain`. -/
def drainFrom (sink : StreamSink σ) (blocking : Bool) :
    Nat → Nat → PublishBuffer σ → Option (Except TransportError Unit × PublishBuffer σ)
  | 0, _, _ => none
  | fuel + 1, backoff, b =>
    if b.entries.isEmpty then some (.ok (), { b with attempted := false })
    else
      let sent := b.callLen
      let terminal := b.terminal && sent == b.entries.length
      match sink.append b.sink b.first (b.entries.take sent) terminal with
      | (.error e, s) => some (.error e, { b with sink := s })
      | (.ok accepted, s) =>
        let b := { b with sink := s }
        if accepted > sent then some (.error (.protocol "append reply"), b)
        else
          let b := if accepted > 0 then b.accept accepted else b
          let backoff := if accepted > 0 then fullBackoffStart else backoff
          if accepted = sent then drainFrom sink blocking fuel backoff b
          else if !blocking then some (.ok (), { b with attempted := true })
          else drainFrom sink blocking fuel (min (backoff * 2) fullBackoffCap) (b.wait backoff)

def drain (sink : StreamSink σ) (blocking : Bool) (fuel : Nat) (b : PublishBuffer σ) :
    Option (Except TransportError Unit × PublishBuffer σ) :=
  drainFrom sink blocking fuel fullBackoffStart b

/-- Buffers one entry. -/
def insert (sink : StreamSink σ) (fuel : Nat) (b : PublishBuffer σ) (entry : Entry) :
    Option (Except TransportError Unit × PublishBuffer σ) :=
  if b.terminal || entry.sequence != b.next then some (.error (.protocol "buffer sequence"), b)
  else if entry.record.utf8ByteSize > b.maxEntryBytes then some (.error .resource, b)
  else
    let b := { b with entries := b.entries ++ [entry.record] }
    match checkedAdd b.next 1 with
    | none => some (.error .resource, b)
    | some next =>
      let b := { b with next := next, terminal := entry.terminal }
      if b.entries.length ≥ b.capacity then drain sink true fuel b
      else if !b.attempted && b.entries.length ≥ b.batch then drain sink false fuel b
      else some (.ok (), b)

/-- Blocking drain of everything buffered. -/
def flush (sink : StreamSink σ) (fuel : Nat) (b : PublishBuffer σ) :
    Option (Except TransportError Unit × PublishBuffer σ) :=
  drain sink true fuel b

end PublishBuffer

end PredictionIndexer.Engine
