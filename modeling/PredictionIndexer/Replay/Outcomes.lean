import PredictionIndexer.Analysis.OutcomeSpace
import PredictionIndexer.ForStd.Result
import PredictionIndexer.ForStd.SortByKey

/-!
# Outcome scopes

`replay/economic_sdk/outcomes.py`: the masked books of a scope as sets of outcomes, and the search for
the books that split a space. A scope is built from a document and book rows of a snapshot. Of what
`replay/outcome_model.py` checks of a document a `Document` keeps what its spaces and claims are to
each other; of the rows `outcome_books` derives, a `BookRow` keeps the masked ones. Statuses and
reasons are left out.
-/

namespace PredictionIndexer.Replay

open Fallible Analysis

/-- Instrument and orientation, in the order of the pair. -/
abbrev BookKey := String ×ₗ String

structure Space where
  shapeId : String
  coverage : Coverage
  keys : List String
deriving DecidableEq

structure ClaimRow where
  claimId : String
  spaceShapeId : String
  outcomeKeys : List String
deriving DecidableEq

/-- What `validate_document` has checked of spaces and claims. -/
structure Document where
  spaces : List Space
  claims : List ClaimRow
  spaces_sorted : (spaces.map (·.shapeId)).Pairwise (· < ·)
  claims_sorted : (claims.map (·.claimId)).Pairwise (· < ·)
  space_keys : ∀ space ∈ spaces, space.keys.Pairwise (· < ·) ∧ space.keys ≠ []
  claim_keys : ∀ claim ∈ claims, claim.outcomeKeys ≠ [] ∧
    ∃ space ∈ spaces, space.shapeId = claim.spaceShapeId ∧
      claim.outcomeKeys.toFinset ⊂ space.keys.toFinset

/-- A row of status `MASKED`: it names a claim of the document and that claim's space. -/
structure BookRow (doc : Document) where
  book : BookKey
  marketId : String
  claim : ClaimRow
  claim_mem : claim ∈ doc.claims
  negated : Bool

structure Leg where
  book : BookKey
  marketId : String
  shapeId : String
  claimId : String
  negated : Bool
  keys : Finset String
deriving DecidableEq

/-- `spaces[shape_id]` -/
def findSpace (spaces : List Space) (shapeId : String) : Option Space :=
  spaces.find? (·.shapeId = shapeId)

/-- The spaces and the legs, in the order they are set: a later leg of a book replaces the earlier.
    `leg_space` makes the look-ups of a leg's space total. -/
structure OutcomeScope where
  spaces : List Space
  legs : List Leg
  space_keys : ∀ space ∈ spaces, space.keys ≠ []
  leg_space : ∀ leg ∈ legs, ∃ space, findSpace spaces leg.shapeId = some space ∧
    leg.keys ≠ ∅ ∧ leg.keys ⊆ space.keys.toFinset

namespace Document

variable {doc : Document}

/-- The outcomes of a row's leg. -/
def rowKeys (doc : Document) (row : BookRow doc) : Finset String :=
  let keys := row.claim.outcomeKeys.toFinset
  if row.negated then
    match findSpace doc.spaces row.claim.spaceShapeId with
    | none => ∅
    | some space => space.keys.toFinset \ keys
  else keys

def rowLeg (doc : Document) (row : BookRow doc) : Leg where
  book := row.book
  marketId := row.marketId
  shapeId := row.claim.spaceShapeId
  claimId := row.claim.claimId
  negated := row.negated
  keys := doc.rowKeys row

theorem findSpace_eq_some {space : Space} (h : space ∈ doc.spaces) :
    findSpace doc.spaces space.shapeId = some space := by
  have hnodup : (doc.spaces.map (·.shapeId)).Nodup := doc.spaces_sorted.imp ne_of_lt
  obtain ⟨found, hfound⟩ := Option.isSome_iff_exists.mp
    (List.find?_isSome.mpr ⟨space, h, decide_eq_true rfl⟩ :
      (doc.spaces.find? (·.shapeId = space.shapeId)).isSome)
  have hid : found.shapeId = space.shapeId := by simpa using List.find?_some hfound
  rw [findSpace, hfound, List.inj_on_of_nodup_map hnodup (List.mem_of_find?_eq_some hfound) h hid]

/-- Neither a claim nor its complement is empty. -/
theorem rowLeg_space (row : BookRow doc) : ∃ space,
    findSpace doc.spaces (doc.rowLeg row).shapeId = some space ∧
      (doc.rowLeg row).keys ≠ ∅ ∧ (doc.rowLeg row).keys ⊆ space.keys.toFinset := by
  obtain ⟨hne, space, hspace, hid, hsub⟩ := doc.claim_keys row.claim row.claim_mem
  have hfind : findSpace doc.spaces row.claim.spaceShapeId = some space := by
    rw [← hid]
    exact findSpace_eq_some hspace
  refine ⟨space, hfind, ?_⟩
  show doc.rowKeys row ≠ ∅ ∧ doc.rowKeys row ⊆ space.keys.toFinset
  unfold rowKeys
  rw [hfind]
  cases row.negated with
  | false =>
    simp only [Bool.false_eq_true, if_false]
    exact ⟨by simpa using hne, hsub.subset⟩
  | true =>
    simp only [if_true]
    exact ⟨(Finset.sdiff_nonempty.mpr hsub.not_subset).ne_empty, Finset.sdiff_subset⟩

theorem legs_space (rows : List (BookRow doc)) : ∀ leg ∈ rows.map doc.rowLeg, ∃ space,
    findSpace doc.spaces leg.shapeId = some space ∧
      leg.keys ≠ ∅ ∧ leg.keys ⊆ space.keys.toFinset := by
  intro leg hleg
  obtain ⟨row, -, rfl⟩ := List.mem_map.mp hleg
  exact doc.rowLeg_space row

theorem keys_ne_nil (doc : Document) : ∀ space ∈ doc.spaces, space.keys ≠ [] :=
  fun space h => (doc.space_keys space h).2

end Document

namespace OutcomeScope

/-- `OutcomeScope.__init__` on an available document. -/
def new (doc : Document) (rows : List (BookRow doc)) : OutcomeScope where
  spaces := doc.spaces
  legs := rows.map doc.rowLeg
  space_keys := doc.keys_ne_nil
  leg_space := Document.legs_space rows

def leg (scope : OutcomeScope) (book : BookKey) : Option Leg :=
  scope.legs.reverse.find? (·.book = book)

def space (scope : OutcomeScope) (shapeId : String) : Option Space :=
  findSpace scope.spaces shapeId

/-- `spaces[shape].keys` -/
def keysOf (scope : OutcomeScope) (shapeId : String) : List String :=
  match scope.space shapeId with
  | none => []
  | some space => space.keys

/-- `spaces[shape].coverage == "EXHAUSTIVE"` -/
def isExhaustive (scope : OutcomeScope) (shapeId : String) : Bool :=
  match scope.space shapeId with
  | none => false
  | some space => space.coverage = .exhaustive

/-- The legs paid at each outcome, under the one space of the books. -/
def payoff (scope : OutcomeScope) (books : List BookKey) :
    Except Raised (List (String × List Nat)) :=
  match books.mapM scope.leg with
  | none => .error (.valueError "payoff requires MASKED legs")
  | some [] => .ok []
  | some (first :: rest) =>
    if rest.any (·.shapeId ≠ first.shapeId) then
      .error (.valueError "payoff requires one outcome space")
    else
      .ok [(first.shapeId,
        (scope.keysOf first.shapeId).map fun key => (first :: rest).countP (key ∈ ·.keys))]

/-- A round of the loop over the legs. -/
def addDisjoint (union : Finset String) (leg : Leg) : Option (Finset String) :=
  if union ∩ leg.keys ≠ ∅ then none else some (union ∪ leg.keys)

def isPartition (scope : OutcomeScope) (books : List BookKey) : Bool :=
  match books.mapM scope.leg with
  | none => false
  | some [] => false
  | some (first :: rest) =>
    if rest.any (·.shapeId ≠ first.shapeId) || !scope.isExhaustive first.shapeId then false
    else match (first :: rest).foldlM addDisjoint ∅ with
      | none => false
      | some union => union = (scope.keysOf first.shapeId).toFinset

/-- `eligible[k]`, of the candidates of `k`. -/
def eligible (legs : List Leg) (remaining : Finset String) (k : String) : List Leg :=
  (legs.filter fun leg => k ∈ leg.keys).filter fun leg => leg.keys ⊆ remaining

/-- The least-covered outcome. -/
def pivot (legs : List Leg) (remaining : Finset String) : String :=
  if h : remaining.Nonempty then
    let ranks : Finset (Nat ×ₗ String) :=
      remaining.image fun k => toLex ((eligible legs remaining k).length, k)
    (ofLex (ranks.min' (h.image _))).2
  else ""

/-- `search`; `left` is `max_legs - len(chosen)`. -/
def search (legs : List Leg) (limit : Int) : Nat → Finset String → List BookKey →
    List (List BookKey) → Except Raised (List (List BookKey))
  | left, remaining, chosen, result =>
    if remaining = ∅ then
      let result := result ++ [chosen.sortByKey id]
      if limit < result.length then .error (.valueError "complete-set limit exceeded")
      else .ok result
    else match left with
      | 0 => .ok result
      | left + 1 =>
        (eligible legs remaining (pivot legs remaining)).foldlM
          (fun result leg =>
            search legs limit left (remaining \ leg.keys) (chosen ++ [leg.book]) result)
          result

/-- The legs of the books in an exhaustive space. -/
def exhaustiveLegs (scope : OutcomeScope) (bookKeys : List BookKey) : List Leg :=
  (bookKeys.sortedSet.filterMap scope.leg).filter fun leg => scope.isExhaustive leg.shapeId

/-- `by_shape[shape]` -/
def shapeLegs (scope : OutcomeScope) (bookKeys : List BookKey) (shape : String) : List Leg :=
  (scope.exhaustiveLegs bookKeys).filter (·.shapeId = shape)

def completeSets (scope : OutcomeScope) (bookKeys : List BookKey) (maxLegs limit : Int) :
    Except Raised (List (List BookKey)) :=
  if maxLegs < 1 ∨ limit < 0 then .error (.valueError "invalid complete-set bounds")
  else do
    let shapes := ((scope.exhaustiveLegs bookKeys).map (·.shapeId)).sortedSet
    let result ← shapes.foldlM
      (fun result shape =>
        search (scope.shapeLegs bookKeys shape) limit maxLegs.toNat
          (scope.keysOf shape).toFinset [] result)
      []
    return result.sortByKey id

end OutcomeScope

end PredictionIndexer.Replay
