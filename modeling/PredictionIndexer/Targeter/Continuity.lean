import Mathlib

/-!
# Continuity bundles

`targeter/v2/continuity.py` and what `targeter/v2/models.py` says of a market: what a committed
generation still subscribes, and the canonical markets of a current candidate. Times are
microseconds; scores are finite.
-/

namespace PredictionIndexer.Targeter

inductive Venue where
  | kalshi
  | polymarket
  | limitless
deriving DecidableEq

def supportedVenues : List Venue := [.kalshi, .polymarket, .limitless]

theorem mem_supportedVenues (v : Venue) : v ∈ supportedVenues := by
  cases v <;> simp [supportedVenues]

def Venue.name : Venue → String
  | kalshi => "kalshi"
  | polymarket => "polymarket"
  | limitless => "limitless"

/-- `f"{venue}:{venue_market_id}"`. -/
def targetId (venue : Venue) (venueMarketId : String) : String :=
  venue.name ++ ":" ++ venueMarketId

/-- What of a target is compared with a current market. -/
structure Terms where
  canonicalClass : String
  subscriptionIds : List String
  activationAt : Int
  captureStartAt : Int
  sourceRef : String
deriving DecidableEq

/-- A target as an allocation reads it, of a market or of a prior bundle. -/
structure Leg where
  venue : Venue
  venueMarketId : String
  terms : Terms
deriving DecidableEq

def Leg.targetId (l : Leg) : String := Targeter.targetId l.venue l.venueMarketId

inductive TerminalState where
  | «open»
  | terminal
  | unknown
deriving DecidableEq

/-- A prior target. Its constructor refuses incomplete metadata and repeated subscriptions. -/
structure ContinuityTarget where
  venue : Venue
  venueMarketId : String
  canonicalClass : String
  subscriptionIds : List String
  activationAt : Int
  captureStartAt : Int
  sourceRef : String
  probe : TerminalState := .unknown
  complete : canonicalClass ≠ "" ∧ subscriptionIds ≠ [] ∧ sourceRef ≠ ""
  unique : subscriptionIds.Nodup
deriving DecidableEq

def ContinuityTarget.leg (t : ContinuityTarget) : Leg :=
  ⟨t.venue, t.venueMarketId,
    ⟨t.canonicalClass, t.subscriptionIds, t.activationAt, t.captureStartAt, t.sourceRef⟩⟩

/-- A prior bundle, which has targets and repeats none. -/
structure ContinuityBundle where
  baseRunId : String
  bundleId : String
  activationAt : Int
  score : ℚ
  targets : List ContinuityTarget
  complete : baseRunId ≠ "" ∧ bundleId ≠ "" ∧ targets ≠ []
  distinct : (targets.map (·.leg.targetId)).Nodup
  agreed : ∀ t ∈ targets, t.activationAt = activationAt
deriving DecidableEq

namespace ContinuityBundle

variable (b : ContinuityBundle)

def legs : List Leg := b.targets.map (·.leg)

def allTerminal : Bool := b.targets.all (·.probe = .terminal)

def anyTerminal : Bool := b.targets.any (·.probe = .terminal)

end ContinuityBundle

/-- What `load_continuity_bundles` reconstructs from a committed generation. A bundle is grouped
    under its ID, and publication refuses a selection that repeats a target. -/
structure ContinuitySet where
  bundles : List ContinuityBundle
  ids : (bundles.map (·.bundleId)).Nodup
  targets : (bundles.flatMap fun b => b.legs.map (·.targetId)).Nodup

/-! ## Current markets -/

/-- What an allocation reads of a canonical market. -/
structure CanonicalMarket where
  venue : Venue
  venueMarketId : String
  canonicalClass : String
  subscriptionIds : List String
  sourceRef : String
  subscribed : subscriptionIds ≠ []
  unique : subscriptionIds.Nodup
deriving DecidableEq

/-- What an allocation reads of a candidate. A catalog names each market once, so a candidate has
    no market twice. -/
structure Candidate where
  bundleId : String
  activationAt : Int
  captureStartAt : Int
  score : ℚ
  eligible : Bool
  eligibleMarkets : List CanonicalMarket
  distinct : (eligibleMarkets.map fun m => targetId m.venue m.venueMarketId).Nodup
deriving DecidableEq

def Candidate.legs (c : Candidate) : List Leg :=
  c.eligibleMarkets.map fun m => ⟨m.venue, m.venueMarketId,
    ⟨m.canonicalClass, m.subscriptionIds, c.activationAt, c.captureStartAt, m.sourceRef⟩⟩

/-! ## Target IDs -/

theorem targetId_inj {v w : Venue} {a b : String} (h : targetId v a = targetId w b) :
    v = w ∧ a = b := by
  have hlists := congrArg String.toList h
  simp only [targetId, String.toList_append] at hlists
  cases v <;> cases w <;> simp [Venue.name, String.ext_iff] at hlists ⊢ <;> simpa using hlists

theorem Leg.targetId_inj {l m : Leg} (h : l.targetId = m.targetId) :
    l.venue = m.venue ∧ l.venueMarketId = m.venueMarketId :=
  Targeter.targetId_inj h

theorem Candidate.legs_distinct (c : Candidate) : (c.legs.map (·.targetId)).Nodup := by
  have h := c.distinct
  rwa [Candidate.legs, List.map_map]

theorem ContinuityBundle.legs_distinct (b : ContinuityBundle) : (b.legs.map (·.targetId)).Nodup := by
  have h := b.distinct
  rwa [ContinuityBundle.legs, List.map_map]

end PredictionIndexer.Targeter
