import PredictionIndexer.Analysis.Masks

/-!
# Claims

`analysis/claims.py`: masks of one outcome set collapse to a claim, claims are related once, and the
relations of markets are rebuilt from both. The digest, SHA-256 of a JSON text in hexadecimal, is a
parameter: its argument is the value, and its result is never empty.
-/

namespace PredictionIndexer.Analysis

open Fallible

def claimIdentityVersion : Nat := 2

/-- The values that are digested. -/
inductive Digested where
  | claim (version : Nat) (spaceShapeId : String) (outcomeKeys : List String)
  | shape (version : Nat) (scope : Scope) (outcomeKeys : List String)
deriving DecidableEq

structure Digest where
  hex : Digested → String
  hex_ne_empty : ∀ value, hex value ≠ ""

/-- `claim_id` -/
def claimId (d : Digest) (outcomeKeys : Finset String) (spaceShape : String) :
    Except Raised String :=
  let keys := outcomeKeys.sort (· ≤ ·)
  if keys = [] then .error (.valueError "a claim must name at least one outcome")
  else if spaceShape = "" then
    .error (.valueError "a claim must name the space shape it is drawn from")
  else .ok (d.hex (.claim claimIdentityVersion spaceShape keys))

/-- `tuple(sorted(...))` of outcome keys. -/
def orderedKeys (outcomeKeys : Finset String) : List String := outcomeKeys.sort (· ≤ ·)

theorem mem_orderedKeys {outcomeKeys : Finset String} {k : String} :
    k ∈ orderedKeys outcomeKeys ↔ k ∈ outcomeKeys :=
  Finset.mem_sort _

/-- `space_shape_id` -/
def spaceShapeId {π : Type} (d : Digest) (space : OutcomeSpace π) : String :=
  d.hex (.shape claimIdentityVersion space.scope (space.keys.sort (· ≤ ·)))

/-- The identifier of an outcome set of a space. -/
def idOf {π : Type} (d : Digest) (space : OutcomeSpace π) (keys : Finset String) : String :=
  d.hex (.claim claimIdentityVersion (spaceShapeId d space) (keys.sort (· ≤ ·)))

/-- One distinct outcome subset, with the masks that expressed it. -/
structure Claim where
  claimId : String
  spaceShapeId : String
  scope : Scope
  outcomeKeys : Finset String
  members : List Mask
deriving DecidableEq

/-- How two claims of one space shape relate. -/
structure ClaimRelation where
  spaceShapeId : String
  leftClaimId : String
  rightClaimId : String
  relationType : Relation
deriving DecidableEq

/-- The masks that may participate in the algebra. -/
def usableMasks {π : Type} (masks : List Mask) (space : OutcomeSpace π) : List Mask :=
  masks.filter fun mask =>
    mask.derivable && 0 < mask.outcomeKeys.card && mask.outcomeKeys.card < space.outcomes.length

/-- The claim of an id: its masks are grouped under it, and the last one names its outcomes. -/
def claimOf (shape : String) (scope : Scope) (identified : List (String × Mask)) (id : String) :
    Claim :=
  let members := (identified.filter (·.1 = id)).map Prod.snd
  { claimId := id
    spaceShapeId := shape
    scope
    outcomeKeys := (members.getLast?.map (·.outcomeKeys)).getD ∅
    members := members.sortByKey fun mask => toLex (mask.venue, mask.marketKey) }

/-- Collapse masks to distinct claims, ordered by id. -/
def deriveClaims {π : Type} (d : Digest) (masks : List Mask) (space : OutcomeSpace π) :
    Except Raised (List Claim) := do
  let shape := spaceShapeId d space
  let identified ← (usableMasks masks space).mapM fun mask => do
    let id ← claimId d mask.outcomeKeys shape
    return (id, mask)
  return ((identified.map Prod.fst).sortedSet).map (claimOf shape space.scope identified)

/-- `_probe`: a minimal mask carrying only what `relationship` reads. -/
def probe (claim : Claim) : Mask where
  marketKey := claim.claimId
  venue := ""
  scope := claim.scope
  status := .derivable
  outcomeKeys := claim.outcomeKeys

/-- A round of the loop over the pairs of claims. -/
def relateClaims (informativeOnly : Bool) (pair : Claim × Claim) : Option ClaimRelation :=
  match relationship (probe pair.1) (probe pair.2) none with
  | none => none
  | some kind =>
    if informativeOnly && kind = .overlap then none
    -- one direction is stored only
    else if kind = .reverseImplication then
      some ⟨pair.2.spaceShapeId, pair.2.claimId, pair.1.claimId, .implication⟩
    else some ⟨pair.1.spaceShapeId, pair.1.claimId, pair.2.claimId, kind⟩

/-- Relate every pair of claims in one space shape. -/
def deriveClaimAlgebra (claims : List Claim) (informativeOnly : Bool) :
    Except Raised (List ClaimRelation) :=
  if (claims.map (·.spaceShapeId)).dedup.length > 1 then
    .error (.valueError "claims from different space shapes are not comparable")
  else .ok ((claims.sortByKey (·.claimId)).pairs.filterMap (relateClaims informativeOnly))

/-- `BundleClaims`, as far as it is read. -/
structure ClaimGroup where
  claims : List Claim
  relations : List ClaimRelation

/-- `sorted` of a pair of keys. -/
def sortedKeys (x y : String) : String × String := if y < x then (y, x) else (x, y)

/-- The direction of an implication, the other way. -/
def flipped : Relation → Relation
  | .implication => .reverseImplication
  | .reverseImplication => .implication
  | kind => kind

/-- The market pairs of one claim. -/
def identityPairs (claim : Claim) : List (String × String × Relation) :=
  claim.members.pairs.filterMap fun (left, right) =>
    if left.venue ≠ right.venue then
      let ordered := sortedKeys left.marketKey right.marketKey
      some (ordered.1, ordered.2, .identity)
    else none

/-- The market pair of two members of related claims. -/
def memberPair (kind : Relation) (left right : Mask) : Option (String × String × Relation) :=
  if left.venue = right.venue then none
  else
    let ordered := sortedKeys left.marketKey right.marketKey
    -- the edge is written from whichever member came first
    let kind := if ordered.1 ≠ left.marketKey then flipped kind else kind
    some (ordered.1, ordered.2, kind)

/-- `by_id[claim_id]` -/
def claimById (claims : List Claim) (id : String) : Except Raised Claim :=
  match claims.reverse.find? (·.claimId = id) with
  | none => .error .keyError
  | some claim => .ok claim

/-- The market pairs of one relation. -/
def relationPairs (claims : List Claim) (relation : ClaimRelation) :
    Except Raised (List (String × String × Relation)) := do
  let left ← claimById claims relation.leftClaimId
  let right ← claimById claims relation.rightClaimId
  return left.members.flatMap fun l => right.members.filterMap (memberPair relation.relationType l)

/-- Rebuild market-pair relations from claims alone. -/
def impliedMarketRelations (groups : List ClaimGroup) :
    Except Raised (List (String × String × Relation)) := do
  let found ← groups.mapM fun group => do
    let related ← group.relations.mapM (relationPairs group.claims)
    return group.claims.flatMap identityPairs ++ related.flatten
  return found.flatten.dedup

end PredictionIndexer.Analysis
