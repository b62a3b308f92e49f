import PredictionIndexer.Analysis.Masks

/-!
# Relationships of a bundle

From `market_scope_masks` of `targeter/v2/relationships.py` to `_capped_markets` and the scope and
cap of `_candidate` in `targeter/v2/selection.py`. How one market is compiled to masks on an outcome
space, and which spaces a bundle has, is a parameter (`MarketSemantics`): both read the whole bundle
and no exclusion. A market's masks have keys that extend its target ID.
-/

namespace PredictionIndexer.Targeter

open Analysis Fallible

/-- What of a canonical market the scope and the cap read; the compilation reads `terms` besides. -/
structure BundleMarket (τ : Type) where
  targetId : String
  canonicalClass : String
  marketType : String
  scope : String
  /-- `_activity`, a finite double. -/
  activity : ℚ
  terms : τ

structure EventBundle (τ : Type) where
  bundleId : String
  /-- `bool(bundle.game)`. -/
  hasGame : Bool
  markets : List (BundleMarket τ)

/-- A mask without its key: the index of its claim stands for it. -/
structure CompiledClaim where
  index : Nat
  venue : String
  scope : Scope
  status : MaskStatus
  outcomeKeys : Finset String

/-- `f"{market.target_id}#claim={index}"`. -/
def claimKey (targetId : String) (index : Nat) : String :=
  targetId ++ "#claim=" ++ toString index

def CompiledClaim.mask (targetId : String) (c : CompiledClaim) : Mask :=
  ⟨claimKey targetId c.index, c.venue, c.scope, c.status, c.outcomeKeys⟩

/-- `_spaces`, `validate_esports_market`, and `compile_mask` over `_market_views`. -/
structure MarketSemantics (τ π : Type) where
  spaces : EventBundle τ → List (OutcomeSpace π)
  validateEsportsMarket : EventBundle τ → BundleMarket τ → OutcomeSpace π →
    Except Raised (List CompiledClaim × Option String)
  compileViews : EventBundle τ → BundleMarket τ → OutcomeSpace π → Except Raised (List CompiledClaim)

def scopeName : Scope → String
  | .regulationFulltime => "regulation_fulltime"
  | .firstHalf => "first_half"
  | .series => "series"

section Masks

variable {τ π : Type} (m : MarketSemantics τ π) (bundle : EventBundle τ)

def applicable (market : BundleMarket τ) (space : OutcomeSpace π) : Bool :=
  market.scope = scopeName space.scope ||
    (bundle.hasGame && space.scope = .series &&
      market.marketType ∈ ["map_winner", "total_maps", "map_handicap"])

/-- The round of `market_scope_masks` for one market. -/
def marketMasks (space : OutcomeSpace π) (market : BundleMarket τ) :
    Except Raised (BundleMarket τ × List Mask × Option String) :=
  if !applicable bundle market space then .ok (market, [], some "DIFFERENT_SCOPE")
  else if bundle.hasGame then do
    let (claims, reason) ← m.validateEsportsMarket bundle market space
    return (market, claims.map (·.mask market.targetId), reason)
  else do
    let claims ← m.compileViews bundle market space
    return (market, claims.map (·.mask market.targetId), none)

/-- `market_scope_masks` -/
def marketScopeMasks (space : OutcomeSpace π) (excluded : String → Bool) :
    Except Raised (List (BundleMarket τ × List Mask × Option String)) :=
  (bundle.markets.filter fun market => !excluded market.targetId).mapM (marketMasks m bundle space)

/-- `_scope_masks` -/
def scopeMasks (space : OutcomeSpace π) (excluded : String → Bool) : Except Raised (List Mask) := do
  let results ← marketScopeMasks m bundle space excluded
  return results.flatMap (·.2.1)

end Masks

/-! ## Relationships -/

structure Relationship where
  bundleId : String
  left : String
  right : String
  relationship : Relation
  scope : Scope
  leftVenue : String
  rightVenue : String
  coverage : Coverage
deriving DecidableEq

/-- `cross_venue` -/
def Relationship.crossVenue (item : Relationship) : Bool := item.leftVenue ≠ item.rightVenue

/-- The masks that are neither empty nor the whole space. -/
def usable {π : Type} (space : OutcomeSpace π) (masks : List Mask) : List Mask :=
  masks.filter fun mask =>
    mask.derivable && 0 < mask.outcomeKeys.card && mask.outcomeKeys.card < space.outcomes.length

/-- The relationship of two masks of a space, if they have one. -/
def related {π : Type} (bundleId : String) (space : OutcomeSpace π) (pair : Mask × Mask) :
    Option Relationship :=
  (relationship pair.1 pair.2 none).map fun kind =>
    ⟨bundleId, pair.1.marketKey, pair.2.marketKey, kind, space.scope, pair.1.venue, pair.2.venue,
      space.coverage⟩

/-- `derive_bundle_relationships`, of which the relationships are kept. -/
def deriveBundleRelationships {τ π : Type} (m : MarketSemantics τ π) (bundle : EventBundle τ)
    (excluded : String → Bool) : Except Raised (List Relationship) := do
  let found ← (m.spaces bundle).mapM fun space => do
    let masks ← scopeMasks m bundle space excluded
    return (usable space masks).pairs.filterMap (related bundle.bundleId space)
  return found.flatten.sortByKey fun item => toLex (scopeName item.scope, toLex (item.left, item.right))

/-- `_cross_relationships` -/
def crossRelationships (relationships : List Relationship) : List Relationship :=
  relationships.filter fun item => item.crossVenue && item.relationship ≠ .overlap

/-! ## Base IDs -/

/-- What stands before the first occurrence of the marker. -/
def beforeMarker (marker : List Char) : List Char → List Char
  | [] => []
  | c :: cs => if marker <+: c :: cs then [] else c :: beforeMarker marker cs

def claimMarker : List Char := "#claim=".toList

/-- `_base_market_id` -/
def baseMarketId (claimId : String) : String :=
  String.ofList (beforeMarker claimMarker claimId.toList)

/-! ## The cap -/

/-- What of a strategy limits the markets of a bundle. -/
structure MarketLimits where
  marketClasses : Option (List String)
  maximumMarketsPerBundle : Option Nat
  marketClassPriority : String → Int

def moneylineTypes : List String := ["moneyline_3way", "series_moneyline"]

/-- The key of the cap order. -/
def capKey {τ : Type} (s : MarketLimits) (market : BundleMarket τ) : Nat ×ₗ Int ×ₗ ℚ ×ₗ String :=
  toLex (if market.marketType ∈ moneylineTypes then 0 else 1,
    toLex (-s.marketClassPriority market.canonicalClass,
      toLex (-market.activity, market.targetId)))

/-- The partners of the ordered markets. -/
def partnersOf (ordered : List String) (crossRelationships : List Relationship) :
    String → Finset String :=
  crossRelationships.foldl (fun partners item =>
    let left := baseMarketId item.left
    let right := baseMarketId item.right
    if left ≠ right ∧ left ∈ ordered ∧ right ∈ ordered then
      let partners := Function.update partners left (insert right (partners left))
      Function.update partners right (insert left (partners right))
    else partners) fun _ => ∅

/-- The loop of `_capped_markets` over the rest of the order. -/
def capLoop (cap : Nat) (ordered : List String) (partners : String → Finset String) :
    List String → Finset String → Finset String
  | [], kept => kept
  | marketId :: rest, kept =>
    if cap ≤ kept.card then kept
    else if marketId ∈ kept then capLoop cap ordered partners rest kept
    else if partners marketId ∩ kept ≠ ∅ then
      capLoop cap ordered partners rest (insert marketId kept)
    else
      match ordered.find? fun other => other ∈ partners marketId ∧ other ∉ kept with
      | some partner =>
        if kept.card + 2 ≤ cap then
          capLoop cap ordered partners rest (insert partner (insert marketId kept))
        else capLoop cap ordered partners rest kept
      | none => capLoop cap ordered partners rest kept

/-- The target IDs in cap order. -/
def capOrder {τ : Type} (s : MarketLimits) (markets : List (BundleMarket τ)) : List String :=
  (markets.sortByKey (capKey s)).map (·.targetId)

/-- `_capped_markets` -/
def cappedMarkets {τ : Type} (s : MarketLimits) (markets : List (BundleMarket τ))
    (crossRelationships : List Relationship) (cap : Nat) : Finset String :=
  let ordered := capOrder s markets
  capLoop cap ordered (partnersOf ordered crossRelationships) ordered ∅

/-! ## Scope and cap of a candidate -/

/-- `market_exclusions`: the reasons under an ID, if there is an entry. -/
abbrev Exclusions := String → Option (List String)

/-- `setdefault(target_id, []).append(reason)` -/
def Exclusions.append (exclusions : Exclusions) (reason targetId : String) : Exclusions :=
  Function.update exclusions targetId (some ((exclusions targetId).getD [] ++ [reason]))

def Exclusions.appendAll {τ : Type} (exclusions : Exclusions) (reason : String)
    (markets : List (BundleMarket τ)) : Exclusions :=
  markets.foldl (fun exclusions market => exclusions.append reason market.targetId) exclusions

def relationshipMarketIds (crossRelationships : List Relationship) : List String :=
  crossRelationships.flatMap fun item => [baseMarketId item.left, baseMarketId item.right]

/-- `_relationship_participants`, with the exclusions it adds. -/
def relationshipParticipants {τ : Type} (trusted : List (BundleMarket τ))
    (crossRelationships : List Relationship) (exclusions : Exclusions) :
    List (BundleMarket τ) × Exclusions :=
  let ids := relationshipMarketIds crossRelationships
  (trusted.filter (·.targetId ∈ ids), exclusions.appendAll "no_modeled_cross_venue_relationship"
    (trusted.filter (·.targetId ∉ ids)))

/-- The class scope: the trusted markets and the exclusions behind it. -/
def classScope {τ : Type} (s : MarketLimits) (bundle : EventBundle τ) (exclusions : Exclusions) :
    List (BundleMarket τ) × Exclusions :=
  let trusted := bundle.markets.filter fun market => (exclusions market.targetId).isNone
  match s.marketClasses with
  | none => (trusted, exclusions)
  | some classes =>
    (trusted.filter (·.canonicalClass ∈ classes),
      exclusions.appendAll "market_class_outside_scope"
        (trusted.filter (·.canonicalClass ∉ classes)))

/-- The markets a candidate keeps, their cross-venue relationships and all exclusions. -/
structure ScopedMarkets (τ : Type) where
  markets : List (BundleMarket τ)
  crossRelationships : List Relationship
  exclusions : Exclusions

section Candidate

variable {τ π : Type} (m : MarketSemantics τ π) (s : MarketLimits) (bundle : EventBundle τ)

/-- Relationships without the excluded markets, and the trusted ones that take part. -/
def participants (trusted : List (BundleMarket τ)) (excluded : String → Bool)
    (exclusions : Exclusions) : Except Raised (ScopedMarkets τ) := do
  let relationships ← deriveBundleRelationships m bundle excluded
  let cross := crossRelationships relationships
  let (markets, exclusions) := relationshipParticipants trusted cross exclusions
  return ⟨markets, cross, exclusions⟩

/-- The part of `_candidate` from the exclusions to the eligible markets. -/
def candidateMarkets (exclusions : Exclusions) : Except Raised (ScopedMarkets τ) := do
  let (trusted, exclusions) := classScope s bundle exclusions
  let excluded := fun id => (exclusions id).isSome
  let first ← participants m bundle trusted excluded exclusions
  match s.maximumMarketsPerBundle with
  | none => return first
  | some cap =>
    if first.markets.length ≤ cap then return first
    else
      let kept := cappedMarkets s first.markets first.crossRelationships cap
      let dropped := first.markets.filter (·.targetId ∉ kept)
      participants m bundle (first.markets.filter (·.targetId ∈ kept))
        (fun id => excluded id || dropped.any (·.targetId = id))
        (first.exclusions.appendAll "market_cap_per_bundle" dropped)

end Candidate

end PredictionIndexer.Targeter
