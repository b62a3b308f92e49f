import PredictionIndexer.ForStd.Order
import PredictionIndexer.Segments.Seal

/-!
# Windows and their readiness

`ingester/crates/finalize/src/window.rs`: what each lane put in a capture window, whether a window
may be finalized yet, the windows no lane put anything in, and the plan of one sweep.

The scan of the spool is not modelled: its result is the map of windows. `verify` is what
`validate_sealed_segment` says of a file on disk.
-/

namespace PredictionIndexer.Finalize

open Fallible Segments

/-! ## Lanes and windows -/

/-- A capture window, identified by its bounds. -/
structure WindowKey where
  startNs : Nat
  endNs : Nat
deriving DecidableEq

/-- The derived order: by start, then by end. -/
instance : Ord WindowKey := ⟨compareLex (compareOn WindowKey.startNs) (compareOn WindowKey.endNs)⟩

instance : Std.TransOrd WindowKey :=
  inferInstanceAs (Std.TransCmp
    (compareLex (compareOn WindowKey.startNs) (compareOn WindowKey.endNs)))

instance : Std.LawfulEqOrd WindowKey :=
  Std.lawfulEqCmp_compareLex_compareOn WindowKey.startNs WindowKey.endNs (by
    rintro ⟨_, _⟩ ⟨_, _⟩ rfl rfl
    rfl)

theorem WindowKey.compare_eq_lt {a b : WindowKey} :
    compare a b = .lt ↔ a.startNs < b.startNs ∨ (a.startNs = b.startNs ∧ a.endNs < b.endNs) := by
  change compareLex (compareOn WindowKey.startNs) (compareOn WindowKey.endNs) a b = .lt ↔ _
  simp [compareLex, compareOn, Ordering.then_eq_lt, Nat.compare_eq_lt]

/-- One lane's contribution to one window, with its segments in the order of their indexes. -/
structure LaneSegments where
  lane : String
  segments : List (String × SegmentSeal)
  /-- Set when a seal could not be read, or disagrees with its filename. -/
  fault : Option String
deriving DecidableEq

structure Window where
  key : WindowKey
  lanes : Std.ExtTreeMap String LaneSegments

/-- The `BTreeMap` of windows. A window is stored under its own bounds. -/
structure Windows where
  byKey : Std.ExtTreeMap WindowKey Window
  keyed : ∀ (key : WindowKey) (window : Window), byKey[key]? = some window → window.key = key

/-- The part of a path after its last slash. -/
def fileName (path : String) : String :=
  String.ofList (path.toList.reverse.takeWhile (· ≠ '/')).reverse

namespace LaneSegments

def clockIsSound (entry : LaneSegments) : Bool :=
  entry.segments.all fun e => e.2.visibleNonDecreasing

/-- The loop of `delivery_is_contiguous`. A segment without records has no indexes to chain. -/
def contiguousFrom (mode : Arithmetic) (previousLast : Option Nat) :
    List (String × SegmentSeal) → Except Halt Unit
  | [] => pure ()
  | (path, declared) :: segments =>
    match declared.firstDeliveryIndex, declared.lastDeliveryIndex with
    | some first, some last => do
      refuse (!declared.deliveryIndexDense)
        (fileName path ++ " declares delivery_index_dense false")
      if let some previous := previousLast then
        let next ← mode.add previous 1
        refuse (first ≠ next)
          ("delivery_index jumps " ++ toString previous ++ " -> " ++ toString first ++ " at " ++
            fileName path ++ "; a segment of this lane is missing from the window")
      contiguousFrom mode (some last) segments
    | _, _ => contiguousFrom mode previousLast segments

def deliveryIsContiguous (mode : Arithmetic) (entry : LaneSegments) : Except Halt Unit :=
  contiguousFrom mode none entry.segments

end LaneSegments

/-! ## Verdicts of lanes -/

inductive LaneStatus where
  | valid
  | invalid (detail : String)
deriving DecidableEq

/-- Each lane's verdict, computed once and reused. -/
structure WindowStatus where
  lanes : Std.ExtTreeMap String LaneStatus := ∅

def WindowStatus.isValid (status : WindowStatus) (lane : String) : Bool :=
  status.lanes[lane]? = some .valid

/-- Expected lanes with nothing mergeable, missing or invalid. -/
def Window.unsatisfied (expected : List String) (status : WindowStatus) : List String :=
  expected.filter fun lane => !status.isValid lane

/-- The outcome of each segment's digest, `none` when it stands. -/
abbrev DigestCache := Std.ExtTreeMap String (Option String)

section Validate

variable (mode : Arithmetic) (verify : String → String → Except Halt Unit)

/-- `Result::err` of a check that may panic. -/
def faultOf : Except Halt Unit → Except Halt (Option String)
  | .ok () => .ok none
  | .error (.err detail) => .ok (some detail)
  | .error .panic => .error .panic

/-- `entry(path).or_insert_with`. -/
def outcomeOf (cache : DigestCache) (lane path : String) :
    Except Halt (Option String × DigestCache) :=
  match cache[path]? with
  | some outcome => pure (outcome, cache)
  | none => do
    let outcome ← faultOf (verify lane path)
    return (outcome, cache.insert path outcome)

/-- The digests of a lane's segments, up to the first that fails. -/
def verifySegments (lane : String) (cache : DigestCache) :
    List (String × SegmentSeal) → Except Halt (LaneStatus × DigestCache)
  | [] => pure (.valid, cache)
  | (path, _) :: segments => do
    let (outcome, cache) ← outcomeOf verify cache lane path
    match outcome with
    | some detail => return (.invalid detail, cache)
    | none => verifySegments lane cache segments

def laneVerdict (entry : LaneSegments) (cache : DigestCache) :
    Except Halt (LaneStatus × DigestCache) :=
  match entry.fault with
  | some detail => pure (.invalid detail, cache)
  | none =>
    if !entry.clockIsSound then
      pure (.invalid ("lane " ++ entry.lane ++
        " sealed a segment with ordering_status visible_clock_regression"), cache)
    else do
      match ← faultOf (entry.deliveryIsContiguous mode) with
      | some detail => return (.invalid detail, cache)
      | none => verifySegments verify entry.lane cache entry.segments

/-- Validates every lane of a window. The digests already known are not computed again. -/
def validateWindow (window : Window) (cache : DigestCache) :
    Except Halt (WindowStatus × DigestCache) :=
  window.lanes.toList.foldlM (fun (status, cache) (_, entry) => do
    let (verdict, cache) ← laneVerdict mode verify entry cache
    return (⟨status.lanes.insert entry.lane verdict⟩, cache)) ({}, cache)

end Validate

/-! ## Eligibility -/

inductive Eligibility where
  /-- Every expected lane produced a lane that merges. -/
  | complete
  /-- The deadline expired with lanes still outstanding. -/
  | deadlineExpired
  /-- Still inside the deadline. -/
  | waiting (untilNs : Nat)
  /-- Two seals disagree about this window's bounds. -/
  | conflicted (ends : List Nat)
deriving DecidableEq

def Eligibility.isReady : Eligibility → Bool
  | complete | deadlineExpired => true
  | waiting _ | conflicted _ => false

/-- `u64::saturating_add`. -/
def saturatingAdd (a b : Nat) : Nat := min (a + b) (2 ^ 64 - 1)

/-- `u64::saturating_mul`. -/
def saturatingMul (a b : Nat) : Nat := min (a * b) (2 ^ 64 - 1)

/-- `u64::checked_sub`. -/
def checkedSub (a b : Nat) : Option Nat := if b ≤ a then some (a - b) else none

theorem checkedSub_eq_some {a b c : Nat} : checkedSub a b = some c ↔ b ≤ a ∧ c = a - b := by
  unfold checkedSub
  split <;> simp_all [eq_comm]

def eligibility (window : Window) (status : WindowStatus) (expected : List String)
    (nowNs deadlineSeconds : Nat) : Eligibility :=
  -- a window that has not ended is still being written to, however complete it looks
  if nowNs < window.key.endNs then .waiting window.key.endNs
  else if (Window.unsatisfied expected status).isEmpty then .complete
  else
    let untilNs := saturatingAdd window.key.endNs (saturatingMul deadlineSeconds 1000000000)
    if nowNs ≥ untilNs then .deadlineExpired else .waiting untilNs

/-! ## Windows no lane put anything in -/

/-- The length of a window. -/
structure Period where
  ns : Nat
  pos : 0 < ns

theorem secondsNs_pos {seconds : Nat} (h : ¬(seconds = 0 ∨ 86400 % seconds ≠ 0)) :
    0 < seconds * 1000000000 := by
  omega

def validateWindowSeconds (seconds : Nat) : Except String Period :=
  if h : seconds = 0 ∨ 86400 % seconds ≠ 0 then
    .error ("--window-seconds must be a positive divisor of 86400, got " ++ toString seconds ++
      "; it has to match the splices' SEGMENT_SECONDS")
  else .ok ⟨seconds * 1000000000, secondsNs_pos h⟩

/-- `MAX_SYNTHESIZED_WINDOWS`. -/
def maxSynthesizedWindows : Nat := 10000

namespace Windows

def keys (windows : Windows) : List WindowKey := windows.byKey.keys

/-- Some window starts there. -/
def startsAt (windows : Windows) (start : Nat) : Bool := windows.keys.any (·.startNs = start)

theorem keyed_insert (windows : Windows) (key : WindowKey)
    (lanes : Std.ExtTreeMap String LaneSegments) (k : WindowKey) (w : Window)
    (h : (windows.byKey.insert key ⟨key, lanes⟩)[k]? = some w) : w.key = k := by
  rw [Std.ExtTreeMap.getElem?_insert] at h
  split at h
  next heq =>
    cases h
    exact Std.LawfulEqOrd.eq_of_compare heq
  next => exact windows.keyed k w h

/-- Adds a window in which every lane was silent. -/
def insertEmpty (windows : Windows) (key : WindowKey) : Windows where
  byKey := windows.byKey.insert key ⟨key, ∅⟩
  keyed := windows.keyed_insert key ∅

end Windows

/-- The latest window whose deadline the wall clock has passed, `expired_newest`. -/
def expiredNewest (period : Period) (nowNs deadlineSeconds : Nat) : Option Nat := do
  let cutoff ← checkedSub nowNs (saturatingMul deadlineSeconds 1000000000)
  checkedSub (cutoff / period.ns * period.ns) period.ns

/-- The wall-clock horizon: only behind a committed receipt, and only within one bounded run. -/
def wallHorizon (period : Period) (resumeAfterNs : Option Nat) (first nowNs deadlineSeconds : Nat) :
    Option Nat :=
  if resumeAfterNs.isSome then
    (expiredNewest period nowNs deadlineSeconds).filter fun expired =>
      expired ≥ first && (expired - first) / period.ns ≤ maxSynthesizedWindows
  else none

/-- The loop of `tile_absent_windows`, from a start on. -/
def tileFrom (period : Period) (newest : Nat) (windows : Windows) (start added : Nat) :
    Except String (Windows × Nat) :=
  match checkedAdd start period.ns with
  | none => .error ("window starting at " ++ toString start ++ " overflows its " ++
      toString period.ns ++ "ns period")
  | some endNs =>
    let absent := !windows.startsAt start
    let windows := if absent then windows.insertEmpty ⟨start, endNs⟩ else windows
    let added := if absent then added + 1 else added
    if _h : start ≥ newest then .ok (windows, added)
    else tileFrom period newest windows (start + period.ns) added
termination_by newest - start
decreasing_by
  have hpos := period.pos
  omega

def tileAbsentWindows (windows : Windows) (period : Period) (resumeAfterNs : Option Nat)
    (nowNs deadlineSeconds : Nat) : Except String (Windows × Nat) :=
  let starts := windows.keys.map (·.startNs)
  match resumeAfterNs.or starts.min? with
  | none => .ok (windows, 0)
  | some first =>
    let horizon := wallHorizon period resumeAfterNs first nowNs deadlineSeconds
    match (starts.max?.toList ++ horizon.toList).max? with
    | none => .ok (windows, 0)
    | some newest =>
      if first > newest then .ok (windows, 0)
      else if newest > first && (newest - first) / period.ns > maxSynthesizedWindows then
        .error ("the gap between the last committed window and " ++ toString newest ++
          " spans more than              " ++ toString maxSynthesizedWindows ++ " windows of " ++
          toString period.ns ++ "ns; finalize the backlog in              smaller ranges " ++
          "rather than materialising every empty window at once")
      else tileFrom period newest windows first 0

/-! ## The plan of a sweep -/

/-- A window that may be finalized, with the validation it was judged on. -/
structure Ready where
  key : WindowKey
  verdict : Eligibility
  status : WindowStatus

section Plan

variable (mode : Arithmetic) (verify : String → String → Except Halt Unit)
  (committed : Std.ExtTreeSet Nat) (expected : List String) (nowNs deadlineSeconds : Nat)

/-- The loop of `ready_windows`. It stops at the first uncommitted window that must wait. -/
def readyFrom (cache : DigestCache) : List (WindowKey × Window) → Except Halt (List Ready)
  | [] => pure []
  | (key, window) :: windows =>
    if committed.contains key.startNs then readyFrom cache windows
    else do
      let (status, cache) ← validateWindow mode verify window cache
      let verdict := eligibility window status expected nowNs deadlineSeconds
      if !verdict.isReady then return []
      else
        let ready ← readyFrom cache windows
        return ⟨key, verdict, status⟩ :: ready

def readyWindows (windows : Windows) (cache : DigestCache) : Except Halt (List Ready) :=
  readyFrom mode verify committed expected nowNs deadlineSeconds cache windows.byKey.toList

end Plan

end PredictionIndexer.Finalize
