import PredictionIndexer.ForStd.History
import PredictionIndexer.ForStd.Json
import PredictionIndexer.Replay.EconomicFills

/-!
# Time-shift history

The committed views of a book in `replay/economic_sdk/runtime.py`: `_ring_append`, `_ring_drop`,
`_ring_prune` and `_shifted`, with the budget of `replay/economic_sdk/bounds.py` they charge. Fills
are interned: a view has references to them, and a reference is what `id` is of an object that some
view retains. Of a runtime only what these functions use is here, and of a view what
`unavailable_view` sets.
-/

namespace PredictionIndexer.Replay

open Fallible Function

/-- `ProtocolError` of `require`, or what Python itself raises. -/
inductive RunError where
  | protocol (message : String)
  | raised (error : Raised)
deriving DecidableEq

/-! ## Bounds -/

namespace Bounds

def int : Nat := 48
def pair : Nat := 64 + 2 * int
def container : Nat := 120
def slot : Nat := 48
def fill : Nat := 120 + 3 * int + 2 * container
def view : Nat := 400
def ringEntry : Nat := 160

end Bounds

structure StateBudget where
  limit : Int
  used : Int
deriving DecidableEq

namespace StateBudget

def replace (b : StateBudget) (old new : Int) : Except RunError StateBudget :=
  if b.used - old + new ≤ b.limit then .ok { b with used := b.used + (new - old) }
  else .error (.protocol "detached state budget")

def charge (b : StateBudget) (amount : Int) : Except RunError StateBudget := b.replace 0 amount

def release (b : StateBudget) (amount : Int) : StateBudget := { b with used := b.used - amount }

end StateBudget

/-! ## Views -/

structure BookView (Ref : Type) where
  validity : String
  reason : Option Json
  lastChange : Int
  bidPresent : Bool
  askPresent : Bool
  bestBid : Option (Int × Int)
  bestAsk : Option (Int × Int)
  fills : List (String × List (Int × Ref))
  transformed : List (String × List (Int × Ref))
  levels : Nat

/-- `unavailable_view` -/
def unavailableView (Ref : Type) (time : Int) : BookView Ref where
  validity := "not_initialized"
  reason := none
  lastChange := time
  bidPresent := false
  askPresent := false
  bestBid := none
  bestAsk := none
  fills := []
  transformed := []
  levels := 0

/-- `_view_fills` -/
def viewFills {Ref : Type} (view : BookView Ref) : List Ref :=
  [view.fills, view.transformed].flatMap fun group => group.flatMap fun fills => fills.2.map (·.2)

/-! ## Rings -/

/-- `_Ring`; `fills` has for each fill how many retained entries refer to it, and its share. -/
structure Ring (Ref : Type) where
  times : List Int := []
  views : List (BookView Ref) := []
  costs : List Nat := []
  fills : Ref → Option (Nat × Nat) := fun _ => none

/-- The part of a runtime that the history is about. -/
structure Runtime (Ref : Type) where
  shifts : List (String × List Int)
  keys_nodup : (shifts.map (·.1)).Nodup
  clockStart : Int
  clockEnd : Int
  ringEntries : Nat
  rings : String → Ring Ref
  budget : StateBudget
  timers : List (Int × String × Int)

/-- The cost of an entry without its fills. -/
def entryCost : Nat := Bounds.ringEntry + Bounds.view + 4 * Bounds.container

/-- The cost of a fill, however many entries refer to it. -/
def fillShare (fill : Fill) : Nat :=
  Bounds.slot + Bounds.fill +
    (fill.taken.length + fill.consumed.length) * (Bounds.pair + Bounds.slot)

/-- `list.pop(index)` -/
def pop {α : Type} (l : List α) (index : Nat) : Except RunError (α × List α) :=
  match l[index]? with
  | some a => .ok (a, l.eraseIdx index)
  | none => .error (.raised .indexError)

section Ring

variable {Ref : Type} [DecidableEq Ref]

/-- A step of the loop of `_ring_append` over the fills of a view. -/
def chargeFill (object : Ref → Fill) (s : Ring Ref × StateBudget) (fill : Ref) :
    Except RunError (Ring Ref × StateBudget) :=
  match s.1.fills fill with
  | none => do
    let share := fillShare (object fill)
    let budget ← s.2.charge share
    return ({ s.1 with fills := update s.1.fills fill (some (1, share)) }, budget)
  | some (count, share) =>
    .ok ({ s.1 with fills := update s.1.fills fill (some (count + 1, share)) }, s.2)

/-- A step of the loop of `_ring_drop` over the fills of a view. -/
def releaseFill (s : Ring Ref × StateBudget) (fill : Ref) :
    Except RunError (Ring Ref × StateBudget) :=
  match s.1.fills fill with
  | none => .error (.raised .keyError)
  | some (count, share) =>
    if count - 1 = 0 then
      .ok ({ s.1 with fills := update s.1.fills fill none }, s.2.release share)
    else
      .ok ({ s.1 with fills := update s.1.fills fill (some (count - 1, share)) }, s.2)

/-- `_ring_drop` -/
def ringDrop (s : Ring Ref × StateBudget) (index : Nat) :
    Except RunError (Ring Ref × StateBudget) := do
  let (view, views) ← pop s.1.views index
  let (_, times) ← pop s.1.times index
  let (cost, costs) ← pop s.1.costs index
  (viewFills view).foldlM releaseFill ({ s.1 with times, views, costs }, s.2.release cost)

/-- The loop of `_ring_prune`. -/
def dropFirst : Nat → Ring Ref × StateBudget → Except RunError (Ring Ref × StateBudget)
  | 0, s => .ok s
  | n + 1, s => do dropFirst n (← ringDrop s 0)

/-- `_ring_prune` -/
def ringPrune (shifts : List Int) (time : Int) (s : Ring Ref × StateBudget) :
    Except RunError (Ring Ref × StateBudget) :=
  match shifts.max? with
  | none => .error (.raised (.valueError "max() arg is an empty sequence"))
  | some shift => dropFirst (History.bisectRight s.1.times (time - shift) - 1) s

/-- The entry of the same time is dropped, if there is one. -/
def ringReplace (time : Int) (s : Ring Ref × StateBudget) :
    Except RunError (Ring Ref × StateBudget) :=
  if s.1.times.getLast? = some time then ringDrop s (s.1.times.length - 1) else .ok s

/-- The ring of `_ring_append`, up to the timers. -/
def ringPush (object : Ref → Fill) (ringEntries : Nat) (shifts : List Int) (time : Int)
    (view : BookView Ref) (s : Ring Ref × StateBudget) :
    Except RunError (Ring Ref × StateBudget) := do
  let s ← ringReplace time s
  let s ← ringPrune shifts time s
  if ringEntries ≤ s.1.times.length then .error (.protocol "time_shift ring bound")
  else
    let (ring, budget) ← (viewFills view).foldlM (chargeFill object) s
    let budget ← budget.charge entryCost
    return ({ ring with
      times := ring.times ++ [time]
      views := ring.views ++ [view]
      costs := ring.costs ++ [entryCost] }, budget)

namespace Runtime

/-- `self.rings[key]` and `self.shifts[key]`, which have the same keys. -/
def shiftsOf (r : Runtime Ref) (key : String) : Except RunError (List Int) :=
  match r.shifts.lookup key with
  | some shifts => .ok shifts
  | none => .error (.raised .keyError)

/-- `_ring_append` -/
def ringAppend (object : Ref → Fill) (r : Runtime Ref) (key : String) (time : Int)
    (view : BookView Ref) : Except RunError (Runtime Ref) := do
  let shifts ← r.shiftsOf key
  let (ring, budget) ← ringPush object r.ringEntries shifts time view (r.rings key, r.budget)
  let due := (shifts.mergeSort (· ≤ ·)).filter fun shift => time + shift < r.clockEnd
  return { r with
    rings := update r.rings key ring
    budget
    timers := due.foldl (fun timers shift => (time + shift, key, shift) :: timers) r.timers }

/-- `_shifted` -/
def shifted (r : Runtime Ref) (key : String) (shift time : Int) :
    Except RunError (BookView Ref) := do
  let _ ← r.shiftsOf key
  let ring := r.rings key
  let index := History.bisectRight ring.times (time - shift)
  if index = 0 then return unavailableView Ref r.clockStart
  else
    match ring.views[index - 1]? with
    | some view => return view
    | none => .error (.raised .indexError)

/-- The history before the first commit. -/
def start (shifts : List (String × List Int)) (keys_nodup : (shifts.map (·.1)).Nodup)
    (clockStart clockEnd : Int) (ringEntries : Nat) (budget : StateBudget) : Runtime Ref where
  shifts
  keys_nodup
  clockStart
  clockEnd
  ringEntries
  rings := fun _ => {}
  budget
  timers := []

end Runtime

/-! ## Runs -/

/-- A view of a book is committed, or other code uses the budget. -/
inductive RuntimeEvent (Ref : Type) where
  | commit (key : String) (time : Int) (view : BookView Ref)
  | replace (old new : Int)
  | release (amount : Int)

namespace Runtime

def step (object : Ref → Fill) (r : Runtime Ref) :
    RuntimeEvent Ref → Except RunError (Runtime Ref)
  | .commit key time view => r.ringAppend object key time view
  | .replace old new => do return { r with budget := ← r.budget.replace old new }
  | .release amount => .ok { r with budget := r.budget.release amount }

def run (object : Ref → Fill) (r : Runtime Ref) (events : List (RuntimeEvent Ref)) :
    Except RunError (Runtime Ref) :=
  events.foldlM (step object) r

end Runtime

end Ring

end PredictionIndexer.Replay
