import Mathlib

/-!
# Fee inputs

The closed values of `replay/fees/domain.py` and `replay/fees/schedules.py` that the fee engine
reads: fixed-point amounts over exact rationals, assets, the context and the economics of a fill,
schedules and what a resolver finds for a fill.

What a constructor checks is a field here. The engine builds amounts of its own, and those
constructors (`Fixed.make`, `AssetDelta.make`) raise as the source's do.
-/

namespace PredictionIndexer.Fees

/-! ## Fixed point -/

/-- `Closed.__post_init__`: no integer of the domain is larger. -/
def domainBound : Nat := 10 ^ 36

structure Fixed where
  atoms : Nat
  scale : Nat
  scale_le : scale ≤ 18
  atoms_le : atoms ≤ domainBound
deriving DecidableEq

def Fixed.value (f : Fixed) : ℚ := f.atoms / 10 ^ f.scale

/-- The constructor. -/
def Fixed.make (atoms : Int) (scale : Nat) : Except String Fixed :=
  if hbound : domainBound < atoms.natAbs then
    .error "integer exceeds domain bound"
  else if h : scale ≤ 18 ∧ 0 ≤ atoms then
    .ok ⟨atoms.toNat, scale, h.1, by omega⟩
  else
    .error "nonnegative fixed point with scale 0..18 required"

/-- `Fixed(0, scale)`. -/
def Fixed.zero (scale : Nat) (h : scale ≤ 18) : Fixed := ⟨0, scale, h, Nat.zero_le _⟩

/-- `fixed`: an exact conversion. -/
def fixed (value : ℚ) (scale : Nat) : Except String Fixed :=
  if 18 < scale then
    .error "exact rational and bounded integer scale required"
  else if (value * 10 ^ scale).den ≠ 1 then
    .error "inexact fixed-point conversion"
  else
    Fixed.make (value * 10 ^ scale).num scale

/-- `ceil_grid`: the next multiple of `10 ^ -scale`. -/
def ceilGrid (value : ℚ) (scale : Nat) : Except String Fixed :=
  if 18 < scale then
    .error "exact rational and bounded integer scale required"
  else
    Fixed.make ⌈value * 10 ^ scale⌉ scale

structure Probability extends Fixed where
  le_one : toFixed.value ≤ 1
deriving DecidableEq

/-! ## Assets -/

inductive AssetKind where
  | usd
  | usdc
  | pusd
  | outcome
deriving DecidableEq

structure Asset where
  kind : AssetKind
  chain : String
  token : String
  named : chain ≠ "" ∧ token ≠ ""
deriving DecidableEq

structure AssetAmount where
  asset : Asset
  amount : Fixed
deriving DecidableEq

/-- A signed amount. -/
structure AssetDelta where
  asset : Asset
  atoms : Int
  scale : Nat
  scale_le : scale ≤ 18
deriving DecidableEq

def AssetDelta.value (d : AssetDelta) : ℚ := d.atoms / 10 ^ d.scale

/-- The constructor at scale 18. -/
def AssetDelta.make (asset : Asset) (atoms : Int) : Except String AssetDelta :=
  if domainBound < atoms.natAbs then
    .error "integer exceeds domain bound"
  else
    .ok ⟨asset, atoms, 18, le_rfl⟩

/-! ## Fills -/

inductive Venue where
  | polymarket
  | kalshi
  | limitless
deriving DecidableEq

inductive Product where
  | clob
  | amm
deriving DecidableEq

inductive Side where
  | buy
  | sell
deriving DecidableEq

inductive Role where
  | maker
  | taker
  | unknown
deriving DecidableEq

inductive AccountClass where
  | direct
  | nonDirect
  | unknown
deriving DecidableEq

/-- `Builder`: only a known builder has an ID. -/
inductive Builder where
  | absent
  | known (builderId : String) (named : builderId ≠ "")
  | unknown
deriving DecidableEq

structure Context where
  venue : Venue
  product : Product
  market : String
  event : Option String
  series : Option String
  category : Option String
  instrument : String
  orientation : String
  account : String
  subaccount : String
  accountClass : AccountClass := .unknown
  builder : Builder := .absent
  explicit : market ≠ "" ∧ instrument ≠ "" ∧ orientation ≠ "" ∧ account ≠ "" ∧ subaccount ≠ ""
deriving DecidableEq

structure InstrumentEconomics where
  quote : Asset
  outcome : Asset
  payout : AssetAmount
  quoteScale : Nat
  quantityScale : Nat
  priceScale : Nat
  kinds : outcome.kind = .outcome ∧ quote.kind ≠ .outcome
  positive : 0 < payout.amount.value
  scales : quoteScale ≤ 18 ∧ quantityScale ≤ 18 ∧ priceScale ≤ 18
deriving DecidableEq

/-- The value is a whole number of `10 ^ -scale`. -/
def Representable (value : ℚ) (scale : Nat) : Prop := (value * 10 ^ scale).den = 1

instance (value : ℚ) (scale : Nat) : Decidable (Representable value scale) :=
  inferInstanceAs (Decidable (_ = _))

structure HypotheticalFill where
  fillId : String
  context : Context
  economics : InstrumentEconomics
  side : Side
  price : Fixed
  probability : Probability
  quantity : Fixed
  grossNotional : AssetAmount
  eventTime : Nat
  role : Role
  orderKey : String
  fillIndex : Nat
  newOrder : Bool
  decisionReference : Option String := none
  counterfactualRevision : Option String := none
  named : fillId ≠ "" ∧ orderKey ≠ "" ∧ counterfactualRevision ≠ some ""
  positive : 0 < quantity.value
  starts : newOrder = true → fillIndex = 0
  gross : grossNotional.asset = economics.quote ∧
    grossNotional.amount.value = price.value * quantity.value
  exact : Representable price.value economics.priceScale ∧
    Representable quantity.value economics.quantityScale ∧
    Representable grossNotional.amount.value economics.quoteScale
deriving DecidableEq

/-! ## Schedules -/

inductive Component where
  | platform
  | builder
  | rounding
  | account
deriving DecidableEq

inductive Rounding where
  | unknown
  | ceil
  | exact
  | pmCeil5Scenario
deriving DecidableEq

inductive KalshiKind where
  | quadratic
  | maker
  | flat
  | combo
deriving DecidableEq

inductive TradeBasis where
  | notional
  | quantity
deriving DecidableEq

inductive Model where
  | polymarket (rate : Fixed) (exponent : Nat) (takerOnly : Bool) (rounding : Rounding)
  | kalshi (kind : Option KalshiKind) (multiplier : Option Fixed)
  | limitlessClob (makerFree : Bool)
  | limitlessAmm (rate : Fixed) (basis : TradeBasis) (rounding : Rounding)
  | builderFee (takerBps makerBps : Nat) (rounding : Rounding)
  | accountRebate (rate : Fixed) (rounding : Rounding)
  | zeroFee (reason : String)
  | unsupported (reason : String)
deriving DecidableEq

/-- What the engine reads of a schedule. -/
structure Schedule where
  component : Component
  economics : InstrumentEconomics
  feeAsset : Asset
  feeScale : Nat
  feeScale_le : feeScale ≤ 18
deriving DecidableEq

inductive UnknownReason where
  | missing
  | history
  | conflict
  | unsupported
  | builder
  | account
  | state
  | rounding
  | dimensions
deriving DecidableEq

structure UnknownSchedule where
  component : Component
  reason : UnknownReason
  candidates : List String := []
deriving DecidableEq

/-- A schedule and the model that is in force, which for a cleared Kalshi field is not only the
    schedule's own. -/
structure Selection where
  schedule : Schedule
  model : Model
deriving DecidableEq

/-- `Selection | UnknownSchedule`. -/
inductive Resolved where
  | selection (s : Selection)
  | unknown (u : UnknownSchedule)
deriving DecidableEq

structure ResolvedScheduleSet where
  context : Context
  eventTime : Nat
  platform : Resolved
  account : Resolved
  referenceTime : Option Nat
deriving DecidableEq

/-- A resolver: what it finds for a context at a time, as known at a cutoff. Its memo only
    remembers selections, so a resolver is a function of its arguments. -/
structure Resolver where
  resolve : Context → Nat → Option Nat → Except String ResolvedScheduleSet
  referenceTime : Option Nat

end PredictionIndexer.Fees
