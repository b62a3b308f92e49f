import PredictionIndexer.Targeter.Continuity

/-!
# Target selection

`select_targets` of `targeter/v2/selection.py` from the candidates on: prior bundles are retired
or protected, protected ones claim the budgets in the order of their recorded scores, and current
candidates are added in ranking order. The ranking is a parameter; what a candidate is made from
is not part of this file.
-/

namespace PredictionIndexer.Targeter

structure Strategy where
  continuityHoldEnabled : Bool
  terminalClampSeconds : Nat
  targetBudgets : Venue → Nat
  maximumBundles : Nat
  maximumMarkets : Option Nat

inductive Disposition where
  | terminalClampElapsed
  | allMarketsTerminal
  | retained
  | heldCurrentCandidate
  | continuityBudgetTrimmed
deriving DecidableEq

inductive AllocationRejection where
  | continuityBudgetTrimmed
  | displacedByContinuityHold
  | maximumBundlesReached
  | continuityIdentityCollision
  | maximumMarketsReached
  | targetBudgetExceeded
deriving DecidableEq

/-- A target of the selection. `isoformat` renders its two times. -/
structure SelectionTarget where
  targetId : String
  bundleId : String
  terms : Terms
  continuityScore : ℚ
deriving DecidableEq

/-! ## Retirement -/

def microseconds : Int := 1000000

/-- `now >= activation_at + terminal_clamp_seconds`. -/
def clampElapsed (s : Strategy) (now : Int) (b : ContinuityBundle) : Bool :=
  b.activationAt + s.terminalClampSeconds * microseconds ≤ now

/-- The disposition before any allocation. -/
def retirement (s : Strategy) (now : Int) (b : ContinuityBundle) : Disposition :=
  if clampElapsed s now b then .terminalClampElapsed
  else if b.allTerminal then .allMarketsTerminal
  else .retained

/-- The bundles that are neither clamped nor terminal. -/
def protectedBundles (s : Strategy) (now : Int) (continuity : List ContinuityBundle) :
    List ContinuityBundle :=
  continuity.filter fun b => retirement s now b = .retained

/-! ## Holding -/

/-- A dictionary of targets: the last of one ID counts. -/
def targetMap (legs : List Leg) (id : String) : Option Terms :=
  (legs.reverse.find? (·.targetId = id)).map (·.terms)

/-- Two dictionaries are equal. -/
def sameTargets (a b : List Leg) : Bool :=
  (a ++ b).all fun l => targetMap a l.targetId = targetMap b l.targetId

/-- `ranked_by_id.get`: the last of the ranked candidates with the ID. -/
def currentOf (ranked : List Candidate) (bundleId : String) : Option Candidate :=
  ranked.reverse.find? (·.bundleId = bundleId)

/-- The current candidate of a bundle that is held. -/
def heldCandidate (ranked : List Candidate) (b : ContinuityBundle) : Option Candidate :=
  (currentOf ranked b.bundleId).filter fun c => sameTargets c.legs b.legs && !b.anyTerminal

/-! ## Allocation -/

/-- An entry of the protected list: the recorded score and ID, and what is emitted. -/
structure ProtectedEntry where
  score : ℚ
  bundleId : String
  item : Candidate ⊕ ContinuityBundle

/-- The order `(-score, bundle_id)`. -/
def ProtectedEntry.Before (a b : ProtectedEntry) : Prop :=
  b.score < a.score ∨ (a.score = b.score ∧ a.bundleId ≤ b.bundleId)

instance : DecidableRel ProtectedEntry.Before := fun _ _ => inferInstanceAs (Decidable (_ ∨ _))

/-- The state of the allocation. -/
structure Allocation where
  budgetUsed : Venue → Nat := fun _ => 0
  selected : List Candidate := []
  selectedRetained : List ContinuityBundle := []
  selectedTargetIds : Venue → List String := fun _ => []
  targets : Venue → List SelectionTarget := fun _ => []
  allocationRejections : String → Option AllocationRejection := fun _ => none
  continuityDispositions : String → Option Disposition := fun _ => none

namespace Allocation

variable (a : Allocation)

/-- How many bundles are selected. -/
def bundleCount : Nat := a.selected.length + a.selectedRetained.length

/-- What the legs that are not selected would add to a venue. -/
def increments (legs : List Leg) (v : Venue) : Nat :=
  ((legs.filter fun l => l.venue = v ∧ l.targetId ∉ a.selectedTargetIds v).map
    (·.terms.subscriptionIds.length)).sum

def fits (s : Strategy) (increments : Venue → Nat) : Bool :=
  supportedVenues.all fun v => a.budgetUsed v + increments v ≤ s.targetBudgets v

/-- One market or target, unless it is selected already. -/
def addLeg (bundleId : String) (score : ℚ) (l : Leg) : Allocation :=
  if l.targetId ∈ a.selectedTargetIds l.venue then a
  else
    { a with
      selectedTargetIds := Function.update a.selectedTargetIds l.venue
        (a.selectedTargetIds l.venue ++ [l.targetId])
      budgetUsed := Function.update a.budgetUsed l.venue
        (a.budgetUsed l.venue + l.terms.subscriptionIds.length)
      targets := Function.update a.targets l.venue
        (a.targets l.venue ++ [⟨l.targetId, bundleId, l.terms, score⟩]) }

def addLegs (bundleId : String) (score : ℚ) (legs : List Leg) : Allocation :=
  legs.foldl (fun a l => a.addLeg bundleId score l) a

def reject (bundleId : String) (reason : AllocationRejection) : Allocation :=
  { a with allocationRejections := Function.update a.allocationRejections bundleId (some reason) }

def dispose (bundleId : String) (d : Disposition) : Allocation :=
  { a with continuityDispositions := Function.update a.continuityDispositions bundleId (some d) }

/-- One round over the protected entries. -/
def protect (s : Strategy) (e : ProtectedEntry) : Allocation :=
  let legs := match e.item with
    | .inl c => c.legs
    | .inr b => b.legs
  if !a.fits s (a.increments legs) || a.bundleCount ≥ s.maximumBundles then
    (a.reject e.bundleId .continuityBudgetTrimmed).dispose e.bundleId .continuityBudgetTrimmed
  else match e.item with
    | .inl c => { a with selected := a.selected ++ [c] }.addLegs e.bundleId c.score legs
    | .inr b =>
      { a with selectedRetained := a.selectedRetained ++ [b] }.addLegs e.bundleId b.score legs

/-- How many markets are selected. -/
def marketCount : Nat := (supportedVenues.map fun v => (a.selectedTargetIds v).length).sum

/-- Why a bundle beyond the bundle limit is not added. -/
def limitReason (protectedSelected : Bool) : AllocationRejection :=
  if protectedSelected then .displacedByContinuityHold else .maximumBundlesReached

/-- Without what the protected bundles use, the increments would fit. -/
def blockedByProtected (s : Strategy) (protectedUsed increments : Venue → Nat) : Bool :=
  supportedVenues.all fun v =>
    a.budgetUsed v - protectedUsed v + increments v ≤ s.targetBudgets v

/-- Why a candidate is not added, if it is not. -/
def additiveRejection (s : Strategy) (protectedSelected : Bool) (protectedUsed : Venue → Nat)
    (c : Candidate) : Option AllocationRejection :=
  let increments := a.increments c.legs
  if a.bundleCount ≥ s.maximumBundles then some (limitReason protectedSelected)
  else if c.legs.any fun l => l.targetId ∈ a.selectedTargetIds l.venue then
    some .continuityIdentityCollision
  else if s.maximumMarkets.any fun limit => a.marketCount + c.eligibleMarkets.length > limit then
    some .maximumMarketsReached
  else if !a.fits s increments then
    some (if a.blockedByProtected s protectedUsed increments then .displacedByContinuityHold
      else .targetBudgetExceeded)
  else none

/-- The loop over the additive candidates. It stops when the bundle limit is reached. -/
def add (s : Strategy) (protectedSelected : Bool) (protectedUsed : Venue → Nat) (a : Allocation) :
    List Candidate → Allocation
  | [] => a
  | c :: rest =>
    match a.additiveRejection s protectedSelected protectedUsed c with
    | some reason => add s protectedSelected protectedUsed (a.reject c.bundleId reason) rest
    | none =>
      let a := { a with selected := a.selected ++ [c] }.addLegs c.bundleId c.score c.legs
      if a.bundleCount ≥ s.maximumBundles then
        rest.foldl (fun a c => a.reject c.bundleId (limitReason protectedSelected)) a
      else add s protectedSelected protectedUsed a rest

end Allocation

/-! ## Selection -/

structure SelectionResult where
  selected : List Candidate
  retained : List ContinuityBundle
  continuityObserved : List ContinuityBundle
  budgetUsed : Venue → Nat
  targets : Venue → List SelectionTarget
  allocationRejections : String → Option AllocationRejection
  continuityDispositions : String → Option Disposition

section Select

variable (s : Strategy) (ranking : Candidate → Candidate → Prop) [DecidableRel ranking] (now : Int)
  (candidates : List Candidate) (continuity : List ContinuityBundle)

/-- The eligible candidates in ranking order. -/
def ranked : List Candidate := (candidates.filter (·.eligible)).insertionSort ranking

/-- What `continuity_dispositions` holds before the allocation. -/
def initialDispositions (ranked : List Candidate) : String → Option Disposition :=
  continuity.foldl (fun dispositions b => Function.update dispositions b.bundleId
    (some (if retirement s now b = .retained ∧ (heldCandidate ranked b).isSome then
      .heldCurrentCandidate else retirement s now b))) fun _ => none

/-- The held and then the retained entries, sorted. -/
def protectedEntries (ranked : List Candidate) : List ProtectedEntry :=
  let bundles := protectedBundles s now continuity
  let held := bundles.filterMap fun b =>
    (heldCandidate ranked b).map fun c => ⟨b.score, b.bundleId, .inl c⟩
  let retained := (bundles.filter fun b => (heldCandidate ranked b).isNone).map fun b =>
    ⟨b.score, b.bundleId, .inr b⟩
  (held ++ retained).insertionSort ProtectedEntry.Before

/-- The allocation behind the protected entries. -/
def protectedAllocation (ranked : List Candidate) : Allocation :=
  (protectedEntries s now continuity ranked).foldl (fun a e => a.protect s e)
    { continuityDispositions := initialDispositions s now continuity ranked }

/-- The candidates that no protected bundle has the ID of. -/
def additive (ranked : List Candidate) : List Candidate :=
  ranked.filter fun c =>
    c.bundleId ∉ (protectedBundles s now continuity).map (·.bundleId)

/-- `select_targets`. -/
def selectTargets : SelectionResult :=
  let ranked := ranked ranking candidates
  let continuity := if s.continuityHoldEnabled then continuity else []
  let held := protectedAllocation s now continuity ranked
  let final := held.add s (held.bundleCount ≠ 0) held.budgetUsed (additive s now continuity ranked)
  { selected := final.selected
    retained := final.selectedRetained
    continuityObserved := continuity
    budgetUsed := final.budgetUsed
    targets := fun v => (final.targets v).insertionSort fun t u => t.targetId ≤ u.targetId
    allocationRejections := final.allocationRejections
    continuityDispositions := final.continuityDispositions }

end Select

end PredictionIndexer.Targeter
