import PredictionIndexer.Analysis.Claims
import PredictionIndexer.Replay.Outcomes

/-!
# Implication covers

`replay/strategies/_shared/implication_cover/contract.py` and `strategy.py`, over
`CrossVenueArbitrage.evaluate`: the two-leg baskets whose masks cover a space and overlap, and what one
of them is worth. Digests, descriptors and the texts of statuses are left out. What the books of the
legs show and what the fee engine charges is given from outside.
-/

namespace PredictionIndexer.Replay.ImplicationCover

open Analysis

inductive VenueMode where
  | sameVenue
  | crossVenue
deriving DecidableEq

def VenueMode.name : VenueMode → String
  | sameVenue => "same_venue"
  | crossVenue => "cross_venue"

/-! ## Books -/

/-- `key[0].split(":", 1)[0]` -/
def venueOf (book : BookKey) : String :=
  String.ofList ((ofLex book).1.toList.takeWhile (· ≠ ':'))

def supportedVenues : List String := ["kalshi", "polymarket", "limitless"]

/-- `source_key`: a Kalshi ask is the projected bid of the other orientation. -/
def sourceKey (book : BookKey) : BookKey :=
  if "kalshi:".toList <+: (ofLex book).1.toList then
    toLex ((ofLex book).1, if (ofLex book).2 = "outcome" then "complement" else "outcome")
  else book

structure ScopeMember where
  marketId : String
  captureSelected : Bool
  books : List BookKey
deriving DecidableEq

/-- The members of a scope, as `resolve_scope` makes them: a native book belongs to one market, and
    every venue is a supported one. -/
structure ScopeMembers where
  members : List ScopeMember
  distinct : (members.flatMap (·.books)).Nodup
  venues : ∀ member ∈ members, ∀ book ∈ member.books, venueOf book ∈ supportedVenues

/-- A book as a leg, with whether its market is captured. -/
structure CoverLeg where
  marketId : String
  book : BookKey
  captured : Bool
deriving DecidableEq

/-- `books`, sorted. -/
def coverLegs (scope : ScopeMembers) : List CoverLeg :=
  (scope.members.flatMap fun member =>
    member.books.map fun book => ⟨member.marketId, book, member.captureSelected⟩).sortByKey (·.book)

/-! ## Baskets -/

inductive Admission where
  | notCaptured
  | unsupportedShape
deriving DecidableEq

inductive Reason where
  | notCaptured
  | outcomesUnavailable
  | unmasked (leg : Nat)
  | sameMarket
  | mixedSpace
  | incompleteSpace
  | gap
  | identityCover
  | askSourceNotPlanned
  | unsupportedVenue
  | noPair
deriving DecidableEq

/-- `proof`: the regions of an implication and what its legs pay in each outcome. -/
structure CoverProof where
  spaceShapeId : String
  outcomeKeys : List String
  antecedentKeys : List String
  consequentKeys : List String
  middleKeys : List String
  legPayoffs : List (Int × Int)
  payoutPerContract : List Nat
deriving DecidableEq

structure CoverBasket where
  legs : List CoverLeg
  sources : List BookKey
  size : Option Nat
  admission : Option Admission
  reasons : List Reason
  implication : Option CoverProof
  missingMarket : Option String
deriving DecidableEq

/-- `emit` -/
def emit (sizes : List Nat) (legs : List CoverLeg) (admission : Option Admission)
    (reasons : List Reason) (proof : Option CoverProof) (missingMarket : Option String) :
    List CoverBasket :=
  let sizes := if admission.isSome then [none] else sizes.map some
  sizes.map fun size =>
    ⟨legs, legs.map fun leg => sourceKey leg.book, size, admission, reasons, proof, missingMarket⟩

def maxPairs : Nat := 4096

/-- `by_venue`, its venues in order. -/
def byVenue (legs : List CoverLeg) : List (List CoverLeg) :=
  (legs.map fun leg => venueOf leg.book).sortedSet.map fun venue =>
    legs.filter fun leg => venueOf leg.book = venue

/-- The candidate pairs, unless there are too many. -/
def candidates (mode : VenueMode) (legs : List CoverLeg) :
    Except String (List (CoverLeg × CoverLeg)) :=
  match mode with
  | .sameVenue =>
    let count := ((byVenue legs).map fun rows => rows.length * (rows.length - 1) / 2).sum
    if count ≤ maxPairs then .ok ((byVenue legs).flatMap List.pairs)
    else .error "implication candidate pair limit exceeded"
  | .crossVenue =>
    let groups := (byVenue legs).pairs
    let count := (groups.map fun group => group.1.length * group.2.length).sum
    if count ≤ maxPairs then .ok (groups.flatMap fun group => group.1.product group.2)
    else .error "implication candidate pair limit exceeded"

/-- What `outcome_scope` gives of the available masks, and the planned books. -/
structure Context where
  masks : Option OutcomeScope
  plans : List BookKey
  sizes : List Nat

/-- The proof of an implication: leg 0 pays the consequent, leg 1 the complement of the antecedent. -/
def coverProof (scope : OutcomeScope) (left right : Leg) : CoverProof :=
  let keys := scope.keysOf left.shapeId
  { spaceShapeId := left.shapeId
    outcomeKeys := keys
    antecedentKeys := orderedKeys (keys.toFinset \ right.keys)
    consequentKeys := orderedKeys left.keys
    middleKeys := orderedKeys (left.keys ∩ right.keys)
    legPayoffs := keys.map fun k => (if k ∈ left.keys then 1 else 0, if k ∈ right.keys then 1 else 0)
    payoutPerContract := keys.map fun k => [left, right].countP (k ∈ ·.keys) }

/-- The verdict on one pair: its admission, the reasons and the proof. -/
def verdict (ctx : Context) (a b : CoverLeg) :
    Option Admission × List Reason × Option CoverProof :=
  let unsupported (reasons : List Reason) : Option Admission × List Reason × Option CoverProof :=
    (some .unsupportedShape, reasons, none)
  if !a.captured || !b.captured then (some .notCaptured, [.notCaptured], none)
  else match ctx.masks with
    | none => unsupported [.outcomesUnavailable]
    | some scope =>
      match scope.leg a.book, scope.leg b.book with
      | none, none => unsupported [.unmasked 0, .unmasked 1]
      | none, some _ => unsupported [.unmasked 0]
      | some _, none => unsupported [.unmasked 1]
      | some left, some right =>
        if a.marketId = b.marketId then unsupported [.sameMarket]
        else if left.shapeId ≠ right.shapeId then unsupported [.mixedSpace]
        else if !scope.isExhaustive left.shapeId then unsupported [.incompleteSpace]
        else if left.keys ∪ right.keys ≠ (scope.keysOf left.shapeId).toFinset then
          unsupported [.gap]
        else if left.keys ∩ right.keys = ∅ then unsupported [.identityCover]
        else if [a, b].any fun leg => sourceKey leg.book ∉ ctx.plans then
          unsupported [.askSourceNotPlanned]
        else if [a, b].any fun leg => venueOf leg.book ∉ supportedVenues then
          unsupported [.unsupportedVenue]
        else (none, [], some (coverProof scope left right))

/-- The rows of the members that have no captured book. -/
def missingRows (ctx : Context) (scope : ScopeMembers) : List CoverBasket :=
  (scope.members.filter fun member => !member.captureSelected || member.books.isEmpty).flatMap
    fun member => emit ctx.sizes [] (some .notCaptured) [.notCaptured] none (some member.marketId)

/-- `baskets` -/
def baskets (ctx : Context) (scope : ScopeMembers) (mode : VenueMode) :
    Except String (List CoverBasket) := do
  let pairs ← candidates mode (coverLegs scope)
  let rows := missingRows ctx scope ++
    (pairs.sortByKey fun pair => toLex (pair.1.book, pair.2.book)).flatMap fun pair =>
      let (admission, reasons, proof) := verdict ctx pair.1 pair.2
      emit ctx.sizes [pair.1, pair.2] admission reasons proof none
  if rows.isEmpty then
    return emit ctx.sizes [] (some .unsupportedShape) [.noPair] none none
  else return rows

/-! ## Worth -/

/-- `payoff`: the acquired tokens' payouts, aligned to the outcomes of the proof. -/
def payoff (proof : CoverProof) (quantities : Int × Int) : List Int :=
  proof.legPayoffs.map fun pays => quantities.1 * pays.1 + quantities.2 * pays.2

/-- `UNIT` -/
def unit : Int := 10 ^ 36

/-- What the fee engine knows of a leg: the cash and the tokens it nets. -/
structure NetLeg where
  cash : Int
  received : Int
deriving DecidableEq

/-- `net_of`, of two legs. -/
def netOf (first second : NetLeg) : Int :=
  min first.received second.received + (first.cash + second.cash)

/-- What a book shows of a leg at some size: whether it can be used, and its fill. -/
structure LegView where
  usable : Bool
  crossed : Bool
  isPresent : Bool
  depthLimited : Bool
  /-- The cost of the fill at scale 36, when the leg's economics is known. -/
  cost : Option Int
  valued : Bool
deriving DecidableEq

inductive ObservationStatus where
  | unusable
  | selfCrossedLeg
  | oneSided
  | depthLimited
  | economicsUnknown
  | valuationUnknown
  | evaluated
deriving DecidableEq

inductive ValueClass where
  | grossNonpositive
  | feeUnknown
  | netPositive
  | netNonpositive
deriving DecidableEq

/-- The amounts of a payload. -/
structure Payload where
  gapGross : Int
  gapNet : Option Int
  payoutFloorGross : Int
  payoutFloorNet : Option Int
  nativeLegs : Option (NetLeg × NetLeg)
  payoffsGross : List Int
  payoffsNet : Option (List Int)
  payoutMiddleGross : Option Int
  payoutMiddleExtraGross : Option Int
  payoutMiddleNet : Option Int
  payoutMiddleExtraNet : Option Int
deriving DecidableEq

structure Observation where
  status : ObservationStatus
  valueClass : Option ValueClass
  payload : Option Payload
deriving DecidableEq

/-- `max(payoffs) - min(payoffs)` -/
def extra (payoffs : List Int) : Option Int := do
  let most ← payoffs.max?
  let least ← payoffs.min?
  return most - least

/-- `evaluate` of the basket of a proof. `assess` is `assess_net`: the legs when nothing about the fees
    is unknown; `threshold` is per contract, at scale 18. -/
def evaluate (proof : CoverProof) (size : Nat) (threshold : Int) (first second : LegView)
    (assess : Option (NetLeg × NetLeg)) : Observation :=
  if !first.usable || !second.usable then ⟨.unusable, none, none⟩
  else if first.crossed || second.crossed then ⟨.selfCrossedLeg, none, none⟩
  else if !first.isPresent || !second.isPresent then ⟨.oneSided, none, none⟩
  else if first.depthLimited || second.depthLimited then ⟨.depthLimited, none, none⟩
  else match first.cost, second.cost with
    | some c, some d =>
      if !first.valued || !second.valued then ⟨.valuationUnknown, none, none⟩
      else
        let gross := size * unit - (c + d)
        let payoffsGross := payoff proof (size * unit, size * unit)
        let payload (legs : Option (NetLeg × NetLeg)) : Payload :=
          let payoffsNet := legs.map fun l => payoff proof (l.1.received, l.2.received)
          { gapGross := gross
            gapNet := legs.map fun l => netOf l.1 l.2
            payoutFloorGross := size * unit
            payoutFloorNet := legs.map fun l => min l.1.received l.2.received
            nativeLegs := legs
            payoffsGross
            payoffsNet
            payoutMiddleGross := payoffsGross.max?
            payoutMiddleExtraGross := extra payoffsGross
            payoutMiddleNet := payoffsNet.bind (·.max?)
            payoutMiddleExtraNet := payoffsNet.bind extra }
        if gross ≤ 0 then ⟨.evaluated, some .grossNonpositive, some (payload none)⟩
        else match assess with
          | none => ⟨.evaluated, some .feeUnknown, some (payload none)⟩
          | some legs =>
            let net := netOf legs.1 legs.2
            let eligible := 0 < net ∧ size * threshold * 10 ^ 18 ≤ net
            ⟨.evaluated, some (if eligible then .netPositive else .netNonpositive),
              some (payload (some legs))⟩
    | _, _ => ⟨.economicsUnknown, none, none⟩

end PredictionIndexer.Replay.ImplicationCover
