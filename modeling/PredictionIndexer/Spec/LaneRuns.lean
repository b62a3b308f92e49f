import PredictionIndexer.Splices.Writer

/-!
# Runs of a lane writer

What the event loop does to a lane writer, one event after the other, whatever each of them raises.
-/

namespace PredictionIndexer.Splices

open Durable Durable.Program

namespace Item

def record? : Item → Option Record
  | .record r => some r
  | .rotate _ => none

end Item

/-- The items still to be consumed: what the disk refused, what the writer has in hand, the queue,
    and what will be put. -/
def LaneState.ahead (s : LaneState) (hand future : List Item) : List Item :=
  s.lane.unwritten.map .record ++ (hand ++ (s.lane.queue ++ future))

@[simp] theorem LaneState.withCurrent_lane (t : SegmentState) (s : LaneState) :
    (s.withCurrent t).lane = s.lane := rfl

inductive LaneEvent where
  | put (item : Item)
  | drain (size : Nat)
  | close (reason : String)

namespace LaneEvent

variable (sha256 : List UInt8 → String) (c : LaneConfig)

def perform : LaneEvent → LaneProgram (Option Seal)
  | .put item => do
    LaneWriter.put c item
    pure none
  | .drain size => do
    LaneWriter.drain sha256 c size
    pure none
  | .close reason => LaneWriter.close sha256 c reason

/-- The state an event leaves behind. -/
def next (e : LaneEvent) (s : LaneState) : LaneState :=
  ((caught (e.perform sha256 c)) s).final s

def run : List LaneEvent → LaneProgram Unit
  | [] => pure ()
  | e :: events => do
    let _ ← caught (e.perform sha256 c)
    run events

/-- The item an event gets into the queue. -/
def accepts (e : LaneEvent) (s : LaneState) : Option Item :=
  match e with
  | .put item => match ((LaneWriter.put c item) s).result with
    | .ok _ => some item
    | .error _ => none
  | _ => none

/-- The items a run gets into the queue, in order. -/
def accepted : List LaneEvent → LaneState → List Item
  | [], _ => []
  | e :: events, s => (e.accepts c s).toList ++ accepted events (e.next sha256 c s)

end LaneEvent

section Accepts

variable {c : LaneConfig} {s : LaneState}

theorem accepts_rotate (startNs : Nat) :
    (LaneEvent.put (.rotate startNs)).accepts c s = some (.rotate startNs) := rfl

/-- A record is refused by a closed writer and by one whose storage has failed. -/
theorem accepts_record (r : Record) : (LaneEvent.put (.record r)).accepts c s =
    if s.lane.closed = false ∧ s.lane.fatal = none then some (.record r) else none := by
  cases hclosed : s.lane.closed with
  | true => simp [LaneEvent.accepts, LaneWriter.put, hclosed]
  | false =>
    cases hfatal : s.lane.fatal with
    | some error => simp [LaneEvent.accepts, LaneWriter.put, hclosed, hfatal]
    | none =>
      simp only [LaneEvent.accepts, LaneWriter.put, read_bind_apply, hclosed, hfatal]
      rfl

end Accepts

section Rules

variable {α : Type} {I : LaneState → Prop} {Q : α → LaneState → Prop} {E : Raised → LaneState → Prop}
  {s : LaneState}

theorem withCurrent_current (s : LaneState) : s.withCurrent s.current = s := rfl

/-- A computation of the current segment. -/
theorem Yields.onSegment {x : SegmentProgram α}
    (hx : Yields (fun t => I (s.withCurrent t)) (fun a t => Q a (s.withCurrent t))
      (fun e t => E e (s.withCurrent t)) x s.current) : Yields I Q E (LaneWriter.onSegment x) s :=
  Yields.zoom withCurrent_current hx

/-- A step of the writer object alone, with more behind it. -/
theorem Yields.assignLane_bind {f : LaneWriter → LaneWriter} {next : Unit → LaneProgram α}
    (hI : I { s with lane := f s.lane })
    (hnext : Yields I Q E (next ()) { s with lane := f s.lane }) :
    Yields I Q E (LaneWriter.assignLane f >>= next) s := by
  apply Yields.bind (Q := fun _ t => t = { s with lane := f s.lane })
  · exact Yields.write hI rfl
  · intro _ t ht
    subst ht
    exact hnext

/-- A call of the writer itself: what holds when it raises, and what holds when it does not. -/
theorem Yields.laneCall {f : LaneState → LaneState} {Q : Unit → LaneState → Prop}
    (hraised : ∀ e host, I { s with host := host } ∧ E e { s with host := host })
    (hreturned : ∀ host, I (f { s with host := host }) ∧ Q () (f { s with host := host })) :
    Yields I Q E (LaneWriter.laneCall f) s := by
  apply Yields.effect
  · dsimp only
    split
    · exact (hraised (.os "") _).1
    · exact (hreturned _).1
  · intro a h
    dsimp only at h ⊢
    split at h
    · cases h
    · exact (hreturned _).2
  · intro e h
    dsimp only at h ⊢
    split at h
    · exact (hraised e _).2
    · cases h

theorem Yields.tokenHex {Q : { id : String // IsHex id } → LaneState → Prop}
    (h : ∀ id host, I { s with host := host } ∧ Q id { s with host := host }) :
    Yields I Q E LaneWriter.tokenHex s := by
  apply Yields.effect
  · exact (h ⟨"00000000", by decide⟩ _).1
  · intro id _
    exact (h id _).2
  · intro e he
    cases he

end Rules

end PredictionIndexer.Splices
