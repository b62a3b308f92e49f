import PredictionIndexer.Continuity.Envelope

/-!
# The continuity classifier

`ingester/crates/continuity/src/{state,fact,lib}.rs`: what a delivery means for identity, epoch
health and cursor order. Identity is decided before anything else, and state moves only through
`observe`, from a committed fact.

`ContentHash::hash` is a SHA-256 of third-party code; every definition that hashes takes it as
`hash`. `+ 1` on a `u64` follows the build's `Arithmetic`. Counts of facts and positions are
unbounded.
-/

namespace PredictionIndexer.Continuity

open Fallible

/-! ## Positions and hashes -/

inductive SequenceKind where
  | evidence
  | canonical
  | fact

/-- A durable position. Positions start at one. -/
structure Sequence (kind : SequenceKind) where
  get : Nat
  pos : 0 < get
deriving DecidableEq

abbrev EvidenceSeq := Sequence .evidence
abbrev CanonicalSeq := Sequence .canonical
abbrev FactSeq := Sequence .fact

namespace Sequence

variable {kind : SequenceKind}

theorem ext_get {a b : Sequence kind} (h : a.get = b.get) : a = b := by
  cases a; cases b; cases h; rfl

/-- `new`: zero or negative is refused rather than stored. -/
def new (value : Int) : Option (Sequence kind) :=
  if h : 0 < value then some ⟨value.toNat, by omega⟩ else none

def next (s : Sequence kind) : Sequence kind := ⟨s.get + 1, by omega⟩

def first : Sequence kind := ⟨1, by decide⟩

@[simp] theorem next_get (s : Sequence kind) : s.next.get = s.get + 1 := rfl

@[simp] theorem first_get : (first : Sequence kind).get = 1 := rfl

theorem new_get (s : Sequence kind) : (new s.get : Option (Sequence kind)) = some s := by
  have := s.pos
  simp [new, this]

end Sequence

/-- A SHA-256 value. -/
structure ContentHash where
  bytes : List UInt8
  length_eq : bytes.length = 32
deriving DecidableEq

/-- Lowercase hexadecimal, two digits a byte. -/
def hexBytes (bytes : List UInt8) : List Char :=
  bytes.flatMap fun b => [Nat.digitChar (b.toNat / 16), Nat.digitChar (b.toNat % 16)]

def ContentHash.toHex (h : ContentHash) : String := String.ofList (hexBytes h.bytes)

/-! ## Keys -/

/-- One venue stream, independent of which connection currently owns it. -/
structure LaneId where
  venue : Venue
  stream : Stream
deriving DecidableEq

instance : Ord LaneId := ⟨compareLex (compareOn LaneId.venue) (compareOn LaneId.stream)⟩
instance : Std.TransOrd LaneId :=
  inferInstanceAs (Std.TransCmp (compareLex (compareOn LaneId.venue) (compareOn LaneId.stream)))
instance : Std.LawfulEqOrd LaneId :=
  Std.lawfulEqCmp_compareLex_compareOn _ _ (by
    rintro ⟨v, s⟩ ⟨v', s'⟩ hv hs
    cases hv; cases hs; rfl)

/-- One connection on one lane: the key continuity state is filed under. -/
structure EpochKey where
  lane : LaneId
  epoch : String
deriving DecidableEq

instance : Ord EpochKey := ⟨compareLex (compareOn EpochKey.lane) (compareOn EpochKey.epoch)⟩
instance : Std.TransOrd EpochKey :=
  inferInstanceAs (Std.TransCmp (compareLex (compareOn EpochKey.lane) (compareOn EpochKey.epoch)))
instance : Std.LawfulEqOrd EpochKey :=
  Std.lawfulEqCmp_compareLex_compareOn _ _ (by
    rintro ⟨l, e⟩ ⟨l', e'⟩ hl he
    cases hl; cases he; rfl)

/-- One connection, across every stream it carries. -/
structure ConnectionKey where
  venue : Venue
  epoch : String
deriving DecidableEq

instance : Ord ConnectionKey :=
  ⟨compareLex (compareOn ConnectionKey.venue) (compareOn ConnectionKey.epoch)⟩
instance : Std.TransOrd ConnectionKey :=
  inferInstanceAs
    (Std.TransCmp (compareLex (compareOn ConnectionKey.venue) (compareOn ConnectionKey.epoch)))
instance : Std.LawfulEqOrd ConnectionKey :=
  Std.lawfulEqCmp_compareLex_compareOn _ _ (by
    rintro ⟨v, e⟩ ⟨v', e'⟩ hv he
    cases hv; cases he; rfl)

/-! ## Identity -/

/-- How a delivery relates to what has been seen before. -/
inductive IdentityVerdict where
  | unseen
  | duplicate (original : FactSeq)
  | conflict (original : FactSeq) (originalContent : ContentHash)
deriving DecidableEq

structure IdentityEntry where
  content : ContentHash
  firstSeen : FactSeq
deriving DecidableEq

/-- The first observation of every record id. -/
structure IdentityState where
  records : Std.ExtTreeMap String IdentityEntry := ∅

namespace IdentityState

def verdict (s : IdentityState) (recordId : String) (content : ContentHash) : IdentityVerdict :=
  match s.records[recordId]? with
  | none => .unseen
  | some entry =>
    if entry.content = content then .duplicate entry.firstSeen
    else .conflict entry.firstSeen entry.content

/-- Records the first observation. A later delivery never overwrites it. -/
def remember (s : IdentityState) (recordId : String) (content : ContentHash) (at_ : FactSeq) :
    IdentityState :=
  { s with records := s.records.insertIfNew recordId ⟨content, at_⟩ }

end IdentityState

/-! ## Facts -/

/-- What one delivery meant for its stream. -/
inductive ContinuityCause where
  | lifecycle
  | bootstrap
  | unsequencedVenue
  | sparseMonotonic
  | continuous (first last : Nat)
  | gapProven (previous first : Nat)
  | cursorWentBackwards (previous observed : Nat)
  | localCounterBroken (expected observed : Nat)
  | duplicate (original : FactSeq)
  | conflict (original : FactSeq)
deriving DecidableEq

def ContinuityCause.label : ContinuityCause → String
  | lifecycle => "lifecycle"
  | bootstrap => "bootstrap"
  | unsequencedVenue => "unsequenced_venue"
  | sparseMonotonic => "sparse_monotonic"
  | continuous .. => "continuous"
  | gapProven .. => "gap_proven"
  | cursorWentBackwards .. => "cursor_went_backwards"
  | localCounterBroken .. => "local_counter_broken"
  | duplicate .. => "duplicate"
  | conflict .. => "conflict"

structure ContinuityFact where
  seq : FactSeq
  recordId : String
  key : EpochKey
  kind : RecordKind
  localCounter : Nat
  deliveryIndex : Nat
  content : ContentHash
  monotonicKey : Option Nat
  cause : ContinuityCause
deriving DecidableEq

/-- `accepted`, which `duplicate` also builds its fact with. -/
def ContinuityFact.accepted (seq : FactSeq) (envelope : EnvelopeView) (key : EpochKey)
    (content : ContentHash) (cause : ContinuityCause) : ContinuityFact where
  seq := seq
  recordId := envelope.recordId
  key := key
  kind := envelope.kind
  localCounter := envelope.localCounter
  deliveryIndex := envelope.deliveryIndex
  content := content
  monotonicKey := envelope.sourceCursor.bind SourceCursor.monotonicKey
  cause := cause

/-! ## Retained state -/

inductive EpochHealth where
  /-- Connected, but no book has been proven yet. -/
  | awaitingBootstrap
  | healthy
  /-- Something arrived that the book cannot be trusted through. -/
  | stale
deriving DecidableEq

structure EpochState where
  health : EpochHealth := .awaitingBootstrap
  observedCounter : Option Nat := none
  monotonicKey : Option Nat := none
  frames : Nat := 0
  provenGaps : Nat := 0
  backwards : Nat := 0
  localBreaks : Nat := 0
deriving DecidableEq

/-- Which epoch currently owns a lane, and when it took over. -/
structure LaneAuthority where
  activeEpoch : String
  establishedAt : FactSeq
deriving DecidableEq

structure ClassifierState where
  identity : IdentityState := {}
  epochs : Std.ExtTreeMap EpochKey EpochState := ∅
  lanes : Std.ExtTreeMap LaneId LaneAuthority := ∅
  /-- Last `local_counter` seen per connection. -/
  connections : Std.ExtTreeMap ConnectionKey Nat := ∅
  duplicates : Nat := 0
  conflicts : Nat := 0

/-- How an accepted fact moves the counts and the health of its epoch. -/
def EpochState.count (e : EpochState) : ContinuityCause → EpochState
  | .lifecycle => e
  | .gapProven .. =>
    { e with frames := e.frames + 1, provenGaps := e.provenGaps + 1, health := .stale }
  | .cursorWentBackwards .. =>
    { e with frames := e.frames + 1, backwards := e.backwards + 1, health := .stale }
  | .localCounterBroken .. =>
    { e with frames := e.frames + 1, localBreaks := e.localBreaks + 1, health := .stale }
  | _ => { e with
      frames := e.frames + 1
      health := if e.health = .awaitingBootstrap then .healthy else e.health }

/-- The epoch's share of `observe`. -/
def EpochState.observe (e : EpochState) (fact : ContinuityFact) : EpochState :=
  ({ e with
    observedCounter := some fact.localCounter
    monotonicKey := match fact.monotonicKey with
      | some key => some (max key (e.monotonicKey.getD 0))
      | none => e.monotonicKey }).count fact.cause

/-- The lane's share of `observe`: authority moves with the first fact of another epoch. -/
def LaneAuthority.observe (fact : ContinuityFact) : Option LaneAuthority → LaneAuthority
  | none => ⟨fact.key.epoch, fact.seq⟩
  | some authority =>
    if authority.activeEpoch ≠ fact.key.epoch then ⟨fact.key.epoch, fact.seq⟩ else authority

namespace ClassifierState

/-- What an accepted fact does: everything past the two early returns of `observe`. -/
def accept (s : ClassifierState) (fact : ContinuityFact) (retainIdentityHistory : Bool) :
    ClassifierState :=
  { s with
    identity := if retainIdentityHistory then
        s.identity.remember fact.recordId fact.content fact.seq else s.identity
    lanes := s.lanes.insert fact.key.lane (LaneAuthority.observe fact s.lanes[fact.key.lane]?)
    connections := s.connections.insert ⟨fact.key.lane.venue, fact.key.epoch⟩ fact.localCounter
    epochs := s.epochs.insert fact.key ((s.epochs[fact.key]?.getD {}).observe fact) }

def observe (s : ClassifierState) (fact : ContinuityFact) (retainIdentityHistory : Bool) :
    ClassifierState :=
  match fact.cause with
  | .duplicate _ => { s with duplicates := s.duplicates + 1 }
  | .conflict _ => { s with conflicts := s.conflicts + 1 }
  | _ => s.accept fact retainIdentityHistory

end ClassifierState

/-! ## The classifier -/

/-- `previous_last == previous || first == previous + 1`. -/
def rangeFollows (mode : Arithmetic) (previous first previousLast : Nat) : Except Halt Bool :=
  if previousLast = previous then pure true
  else do return decide (first = (← mode.add previous 1))

/-- What a venue frame says about its own stream. -/
def classifyCursor (mode : Arithmetic) (previousKey : Option Nat) :
    Option SourceCursor → Except Halt ContinuityCause
  | none => pure .bootstrap
  | some (.unsequenced _) => pure .unsequencedVenue
  | some (.snapshotId _) => pure .sparseMonotonic
  | some (.snapshotTime _) => pure .sparseMonotonic
  | some (.updateRange first last previousLast) =>
    match previousKey with
    | none => pure .bootstrap
    | some previous => do
      if ← rangeFollows mode previous first previousLast then pure (.continuous first last)
      else if last ≤ previous then pure (.cursorWentBackwards previous last)
      else pure (.gapProven previous first)

/-- A break of our own per-connection counter, which is dense by construction. -/
def localBreak (mode : Arithmetic) (observed : Nat) : Option Nat →
    Except Halt (Option ContinuityCause)
  | none => pure none
  | some previous => do
    let expected ← mode.add previous 1
    return if observed ≠ expected then some (.localCounterBroken expected observed) else none

/-- `classify_cause`: our own counter first, the venue's cursor after it. -/
def classifyCause (mode : Arithmetic) (envelope : EnvelopeView)
    (previousCounter previousKey : Option Nat) : Except Halt ContinuityCause := do
  match ← localBreak mode envelope.localCounter previousCounter with
  | some cause => pure cause
  | none =>
    if envelope.kind ≠ .venueFrame then pure .lifecycle
    else classifyCursor mode previousKey envelope.sourceCursor

structure Classifier where
  state : ClassifierState := {}
  retainIdentityHistory : Bool := true

namespace Classifier

/-- `Classifier::new`. -/
def new : Classifier := {}

/-- A classifier whose caller supplies exact identity verdicts. -/
def withoutIdentityHistory : Classifier := { retainIdentityHistory := false }

/-- The key an envelope's continuity is filed under. -/
def epochKey (envelope : EnvelopeView) : EpochKey :=
  ⟨⟨envelope.venue, envelope.stream⟩, envelope.connectionEpoch⟩

/-- The cause of an unseen delivery, from what is retained about its connection and epoch. -/
def cause (mode : Arithmetic) (c : Classifier) (envelope : EnvelopeView) :
    Except Halt ContinuityCause :=
  classifyCause mode envelope
    c.state.connections[(⟨envelope.venue, envelope.connectionEpoch⟩ : ConnectionKey)]?
    (c.state.epochs[epochKey envelope]?.bind EpochState.monotonicKey)

/-- `classify_with_identity`: previews what one delivery means. -/
def classifyWithIdentity (mode : Arithmetic) (hash : String → ContentHash) (c : Classifier)
    (envelope : EnvelopeView) (position : FactSeq) (verdict : IdentityVerdict) :
    Except Halt ContinuityFact := do
  let cause ← match verdict with
    | .duplicate original => pure (.duplicate original)
    | .conflict original _ => pure (.conflict original)
    | .unseen => c.cause mode envelope
  return .accepted position envelope (epochKey envelope) (hash envelope.rawPayload) cause

/-- `classify`: the same, with the verdict of the retained identity. -/
def classify (mode : Arithmetic) (hash : String → ContentHash) (c : Classifier)
    (envelope : EnvelopeView) (position : FactSeq) : Except Halt ContinuityFact :=
  c.classifyWithIdentity mode hash envelope position
    (c.state.identity.verdict envelope.recordId (hash envelope.rawPayload))

/-- `apply`: moves retained state, from a committed fact. -/
def apply (c : Classifier) (fact : ContinuityFact) : Classifier :=
  { c with state := c.state.observe fact c.retainIdentityHistory }

/-- A stream of deliveries, each classified at the next position and applied. -/
def classifyAll (mode : Arithmetic) (hash : String → ContentHash) (c : Classifier) (seq : FactSeq) :
    List EnvelopeView → Except Halt (List ContinuityFact × Classifier)
  | [] => pure ([], c)
  | envelope :: envelopes => do
    let fact ← c.classify mode hash envelope seq
    let (facts, c) ← (c.apply fact).classifyAll mode hash seq.next envelopes
    return (fact :: facts, c)

/-- `restore`: replaces the retained state wholesale. -/
def restore (c : Classifier) (state : ClassifierState) : Classifier := { c with state := state }

end Classifier

end PredictionIndexer.Continuity
