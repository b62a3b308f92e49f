import PredictionIndexer.Fees.Domain
import PredictionIndexer.ForStd.Result

/-!
# The fee engine

`FeeEngine` of `replay/fees/engine.py`: `assess` turns one hypothetical fill and the schedules
found for it into charges, rebates and net deltas, and `assessMany` threads the rounding carry of
each order through a sequence of fills.

The source collects its findings in four lists that closures append to; `Findings` are those
lists. An error is the message of the exception.
-/

namespace PredictionIndexer.Fees

/-! ## Values -/

inductive Basis where
  | gross
  | baseTaker
  | maker
  | accountAdjusted
deriving DecidableEq

inductive Evidence where
  | actualObserved
  | exactModel
  | estimate
  | conditionalBound
  | unknown
deriving DecidableEq

/-- `FeeCharge` and `Rebate`. -/
structure FeeEntry where
  component : Component
  amount : AssetAmount
  evidence : Evidence
deriving DecidableEq

structure Policy where
  name : String := "conservative-v1"
  includeAccountRebates : Bool := false
  includeRoundingRefunds : Bool := false
  assumeUnknownRoleTaker : Bool := true
  kalshiMemberClass : AccountClass := .nonDirect
  pmCeil5Scenario : Bool := true
  limitlessBuyBps : Nat := 300
  limitlessSellBps : Nat := 150
  known : kalshiMemberClass ≠ .unknown := by decide
  rates : limitlessBuyBps ≤ 10000 ∧ limitlessSellBps ≤ 10000 := by decide
deriving DecidableEq

/-- The accumulator of a Kalshi order. -/
structure OrderState where
  account : String
  subaccount : String
  orderKey : String
  asset : Asset
  gridScale : Nat
  lastFillIndex : Nat
  lastEventTime : Nat
  carry : Fixed
  policyIdentity : String
  venue : Venue
  product : Product
  market : String
  instrument : String
  orientation : String
  outcome : Asset
  side : Side
  counterfactualRevision : Option String
deriving DecidableEq

structure FeeAssessment where
  fill : HypotheticalFill
  resolved : ResolvedScheduleSet
  policy : Policy
  basis : Basis
  evidence : Evidence
  charges : List FeeEntry
  rebates : List FeeEntry
  unknowns : List UnknownSchedule
  netDeltas : Option (List AssetDelta)
  contractFeePayoutImpact : Option AssetAmount
  assumptions : List String
  exclusions : List String
  priorOrderState : Option OrderState
deriving DecidableEq

/-- The digests of canonical values. -/
structure Identities where
  asset : Asset → String
  fill : HypotheticalFill → String
  policy : Policy → String

/-- One configuration; a resolver that is bound here has a reference time. -/
structure FeeEngine where
  policy : Policy := {}
  resolver : Option Resolver := none
  snapshot : ∀ r ∈ resolver, r.referenceTime.isSome := by simp

/-! ## Findings -/

structure Findings where
  charges : List FeeEntry := []
  rebates : List FeeEntry := []
  unknowns : List UnknownSchedule := []
  assumptions : List String := []
deriving DecidableEq

namespace Findings

def unknown (f : Findings) (component : Component) (reason : UnknownReason) : Findings :=
  { f with unknowns := f.unknowns ++ [{ component := component, reason := reason }] }

def charge (f : Findings) (component : Component) (asset : Asset) (amount : Fixed)
    (evidence : Evidence := .exactModel) : Findings :=
  { f with charges := f.charges ++ [⟨component, ⟨asset, amount⟩, evidence⟩] }

def rebate (f : Findings) (component : Component) (asset : Asset) (amount : Fixed)
    (evidence : Evidence) : Findings :=
  { f with rebates := f.rebates ++ [⟨component, ⟨asset, amount⟩, evidence⟩] }

def assume (f : Findings) (assumption : String) : Findings :=
  { f with assumptions := f.assumptions ++ [assumption] }

end Findings

/-- `rounded`: an amount at the schedule's scale, if its rounding gives one. -/
def rounded (raw : ℚ) (s : Schedule) (rounding : Rounding) (f : Findings) :
    Except String (Option Fixed × Findings) :=
  if rounding = .ceil then do
    let amount ← ceilGrid raw s.feeScale
    pure (some amount, f)
  else if rounding = .exact ∧ Representable raw s.feeScale then do
    let amount ← fixed raw s.feeScale
    pure (some amount, f)
  else
    .ok (none, f.unknown s.component .rounding)

/-- `validate_selection`. -/
def validateSelection (r : Resolved) (e : InstrumentEconomics) (f : Findings) :
    Except String (Option Selection × Findings) :=
  match r with
  | .unknown u => .ok (none, { f with unknowns := f.unknowns ++ [u] })
  | .selection s =>
    if s.schedule.economics ≠ e then .error "schedule economics identity mismatch"
    else .ok (some s, f)

section Fill

variable (ids : Identities) (policy : Policy) (fill : HypotheticalFill)

/-- What the side receives, and the asset it is received in. -/
def received : Asset × ℚ :=
  match fill.side with
  | .buy => (fill.economics.outcome, fill.quantity.value)
  | .sell => (fill.economics.quote, fill.grossNotional.amount.value)

def limitlessBps : Nat :=
  match fill.side with
  | .buy => policy.limitlessBuyBps
  | .sell => policy.limitlessSellBps

/-- `configured_limitless`. -/
def configuredLimitless (f : Findings) : Except String Findings := do
  let (asset, value) := received fill
  let f := f.assume "limitless_configured_rate_and_ceil6_declared_fill"
  let amount ← ceilGrid (value * (limitlessBps policy fill / 10000)) 6
  if value < amount.value then
    .error "Limitless fee exceeds received amount"
  else
    pure (f.charge .platform asset amount .estimate)

/-! ## Kalshi -/

def gridScale : Nat := if policy.kalshiMemberClass = .direct then 4 else 2

/-- The balance grid. -/
def grid : ℚ := 1 / 10 ^ gridScale policy

/-- What the fill does to the quote balance before fees. -/
def revenue : ℚ :=
  match fill.side with
  | .buy => -fill.grossNotional.amount.value
  | .sell => fill.grossNotional.amount.value

/-- The rounding charge: what the balance change is above the grid. -/
def roundingCharge (tradeFee : ℚ) : ℚ :=
  let change := revenue fill - tradeFee
  change - ⌊change / grid policy⌋ * grid policy

/-- What the accumulator gives back: whole grid steps of what it has, but no more than the fill
    paid. -/
def grantedRebate (previous tradeFee rounding : ℚ) : ℚ :=
  grid policy * (min ⌊(previous + rounding) / grid policy⌋ ⌊(tradeFee + rounding) / grid policy⌋ : ℤ)

/-- The state of the order after this fill, but for its carry. -/
def nextState (carry : Fixed) : OrderState where
  account := fill.context.account
  subaccount := fill.context.subaccount
  orderKey := fill.orderKey
  asset := fill.economics.quote
  gridScale := gridScale policy
  lastFillIndex := fill.fillIndex
  lastEventTime := fill.eventTime
  carry := carry
  policyIdentity := ids.policy policy
  venue := fill.context.venue
  product := fill.context.product
  market := fill.context.market
  instrument := fill.context.instrument
  orientation := fill.context.orientation
  outcome := fill.economics.outcome
  side := fill.side
  counterfactualRevision := fill.counterfactualRevision

/-- The fill goes on where the state of the order ended. -/
def continues (s : OrderState) : Bool :=
  !fill.newOrder && s.account = fill.context.account && s.subaccount = fill.context.subaccount &&
    s.orderKey = fill.orderKey && s.asset = fill.economics.quote &&
    s.gridScale = gridScale policy && s.lastFillIndex + 1 = fill.fillIndex &&
    s.policyIdentity = ids.policy policy && s.venue = fill.context.venue &&
    s.product = fill.context.product && s.market = fill.context.market &&
    s.instrument = fill.context.instrument && s.orientation = fill.context.orientation &&
    s.outcome = fill.economics.outcome && s.side = fill.side &&
    s.counterfactualRevision = fill.counterfactualRevision && s.lastEventTime ≤ fill.eventTime

/-- `state_ok`. -/
def stateOk (prior : Option OrderState) : Bool :=
  (match prior with
    | none => fill.newOrder
    | some s => continues ids policy fill s) && fill.role ≠ .unknown

def previousCarry (prior : Option OrderState) : ℚ := (prior.map (·.carry.value)).getD 0

/-- The base rate of the quadratic models. -/
def kalshiRate (role : Role) (kind : KalshiKind) : ℚ :=
  if role = .taker then 7 / 100 else if kind = .maker then 7 / 400 else 0

/-- The order accumulator behind the two charges. -/
def accumulate (tradeFee rounding : ℚ) (prior : Option OrderState) (f : Findings) :
    Except String (Findings × Option OrderState) := do
  let (f, state) ←
    (if stateOk ids policy fill prior then do
      let previous := previousCarry prior
      let rebate := grantedRebate policy previous tradeFee rounding
      let carry ← fixed (previous + rounding - rebate) 6
      let state := nextState ids policy fill carry
      if policy.includeRoundingRefunds then do
        let amount ← fixed rebate 6
        pure (f.rebate .rounding fill.economics.quote amount .exactModel, some state)
      else
        pure (f, some state)
    else if policy.includeRoundingRefunds then
      .ok (f.unknown .rounding .state, none)
    else
      .ok (f, none) : Except String (Findings × Option OrderState))
  if policy.includeRoundingRefunds then
    pure (f, state)
  else
    pure (f.assume "kalshi_per_fill_rebates_omitted", state)

/-- The Kalshi branch. -/
def assessKalshi (role : Role) (kind : Option KalshiKind) (multiplier : Option Fixed)
    (s : Schedule) (prior : Option OrderState) (f : Findings) :
    Except String (Findings × Option OrderState) :=
  match kind, multiplier with
  | some kind, some multiplier =>
    if (kind ≠ .quadratic ∧ kind ≠ .maker) ∨ s.feeScale ≠ 6 then
      .ok (f.unknown .platform .unsupported, none)
    else if ¬Representable fill.grossNotional.amount.value 6 then
      .error "Kalshi revenue must be exactly representable at six decimals"
    else do
      let p := fill.probability.value
      let tradeFee ← ceilGrid
        (kalshiRate role kind * multiplier.value * fill.quantity.value * p * (1 - p)) 6
      let f := f.charge .platform fill.economics.quote tradeFee
      let rounding ← fixed (roundingCharge policy fill tradeFee.value) 6
      let f := f.charge .rounding fill.economics.quote rounding
      accumulate ids policy fill tradeFee.value rounding.value prior f
  | _, _ => .ok (f.unknown .platform .unsupported, none)

/-! ## The other platform models -/

/-- The Polymarket branch. -/
def assessPolymarket (role : Role) (rate : Fixed) (exponent : Nat) (takerOnly : Bool)
    (rounding : Rounding) (s : Schedule) (f : Findings) : Except String Findings :=
  let p := fill.probability.value
  let raw := if role = .maker ∧ takerOnly then 0
    else fill.quantity.value * rate.value * (p * (1 - p)) ^ exponent
  if raw = 0 then
    .ok (f.charge .platform s.feeAsset (.zero s.feeScale s.feeScale_le))
  else if rounding = .pmCeil5Scenario then
    if policy.pmCeil5Scenario ∧ s.feeScale = 5 then do
      let amount ← ceilGrid raw 5
      pure ((f.assume "ceil5_per_declared_fill_not_whole_execution_bound").charge .platform
        s.feeAsset amount .estimate)
    else
      .ok (f.unknown .platform .rounding)
  else do
    let (amount, f) ← rounded raw s rounding f
    match amount with
    | some amount => pure (f.charge .platform s.feeAsset amount)
    | none => pure f

/-- The AMM branch. -/
def assessLimitlessAmm (rate : Fixed) (basis : TradeBasis) (rounding : Rounding) (s : Schedule)
    (f : Findings) : Except String Findings :=
  let asset := if basis = .notional then fill.economics.quote else fill.economics.outcome
  if s.feeAsset ≠ asset ∨ rate.value ≠ 4 / 1000 then
    .ok (f.unknown .platform .dimensions)
  else do
    let raw := (if basis = .notional then fill.grossNotional.amount.value
      else fill.quantity.value) * rate.value
    let (amount, f) ← rounded raw s rounding f
    match amount with
    | some amount => pure (f.charge .platform asset amount)
    | none => pure f

/-- Binary contracts with a unit payout in a quote asset of the venue's kind. -/
def dimensional (s : Schedule) (m : Model) : Bool :=
  let e := fill.economics
  let unit := e.payout.asset = e.quote ∧ e.payout.amount.value = 1 ∧
    fill.price.value = fill.probability.value ∧ s.feeAsset = e.quote
  match m with
  | .kalshi .. => unit ∧ e.quote.kind = .usd
  | .polymarket .. => unit ∧ (e.quote.kind = .usdc ∨ e.quote.kind = .pusd)
  | _ => true

/-- The selected platform model. -/
def assessModel (role : Role) (sel : Selection) (prior : Option OrderState) (f : Findings) :
    Except String (Findings × Option OrderState) :=
  let s := sel.schedule
  if !dimensional fill s sel.model then
    .ok (f.unknown .platform .dimensions, none)
  else if let .zeroFee _ := sel.model then
    if fill.context.venue = .kalshi then .ok (f.unknown .platform .unsupported, none)
    else .ok (f.charge .platform s.feeAsset (.zero s.feeScale s.feeScale_le), none)
  else if role = .unknown then
    .ok (f.unknown .platform .unsupported, none)
  else
    match sel.model with
    | .polymarket rate exponent takerOnly rounding => do
      let f ← assessPolymarket policy fill role rate exponent takerOnly rounding s f
      pure (f, none)
    | .kalshi kind multiplier => assessKalshi ids policy fill role kind multiplier s prior f
    | .limitlessClob makerFree =>
      if s.feeAsset ≠ fill.economics.quote ∨ s.feeScale ≠ 6 then
        .ok (f.unknown .platform .dimensions, none)
      else if role = .maker ∧ makerFree then
        .ok (f.charge .platform s.feeAsset (.zero s.feeScale s.feeScale_le), none)
      else if role = .taker then do
        let f ← configuredLimitless policy fill f
        pure (f, none)
      else
        .ok (f.unknown .platform .unsupported, none)
    | .limitlessAmm rate basis rounding => do
      let f ← assessLimitlessAmm fill rate basis rounding s f
      pure (f, none)
    | _ => .ok (f.unknown .platform .unsupported, none)

/-- A Limitless taker without any schedule is charged the configured rate. -/
def unscheduledLimitless (role : Role) (platform : Resolved) : Bool :=
  fill.context.venue = .limitless && fill.context.product = .clob && role = .taker &&
    match platform with
    | .unknown u => u.reason = .missing && u.candidates.isEmpty
    | .selection _ => false

/-- The platform component. -/
def assessPlatform (role : Role) (platform : Resolved) (prior : Option OrderState)
    (f : Findings) : Except String (Findings × Option OrderState) :=
  if unscheduledLimitless fill role platform then do
    let f ← configuredLimitless policy fill f
    pure (f, none)
  else do
    let (sel, f) ← validateSelection platform fill.economics f
    match sel with
    | some sel => assessModel ids policy fill role sel prior f
    | none => pure (f, none)

/-! ## Account rebates -/

/-- The rebate on the platform charge, and whether there is one. -/
def assessAccount (account : Resolved) (f : Findings) : Except String (Findings × Bool) := do
  let (sel, f) ← validateSelection account fill.economics f
  match sel with
  | none => pure (f, false)
  | some sel =>
    match sel.model with
    | .accountRebate rate rounding =>
      match f.charges.find? (·.component = .platform) with
      | none => pure (f.unknown .account .dimensions, false)
      | some base =>
        if base.amount.asset ≠ sel.schedule.feeAsset then
          pure (f.unknown .account .dimensions, false)
        else do
          let (amount, f) ← rounded (base.amount.amount.value * rate.value) sel.schedule rounding f
          match amount with
          | some amount =>
            pure (f.rebate .account sel.schedule.feeAsset amount base.evidence, true)
          | none => pure (f, false)
    | _ => pure (f.unknown .account .unsupported, false)

/-! ## Net deltas -/

/-- `amounts[asset] = amounts.get(asset, 0) + value`. -/
def addAmount (amounts : List (Asset × ℚ)) (asset : Asset) (value : ℚ) : List (Asset × ℚ) :=
  match amounts with
  | [] => [(asset, value)]
  | (a, v) :: rest => if a = asset then (a, v + value) :: rest else (a, v) :: addAmount rest asset value

/-- What the fill itself moves. -/
def grossFlow : List (Asset × ℚ) :=
  let sign : ℚ := if fill.side = .buy then 1 else -1
  [(fill.economics.quote, -sign * fill.grossNotional.amount.value),
    (fill.economics.outcome, sign * fill.quantity.value)]

/-- The flow of every asset: the gross flow less the charges plus the rebates. -/
def flows (f : Findings) : List (Asset × ℚ) :=
  let entries := f.charges.map (fun c => (c.amount.asset, -c.amount.amount.value)) ++
    f.rebates.map (fun r => (r.amount.asset, r.amount.amount.value))
  entries.foldl (fun amounts x => addAmount amounts x.1 x.2) (grossFlow fill)

/-- `int` of a rational: towards zero. -/
def truncate (q : ℚ) : Int := if 0 ≤ q then ⌊q⌋ else ⌈q⌉

/-- Native deltas in the order of the assets' identities. -/
def netDeltas (f : Findings) : Except String (List AssetDelta) :=
  ((flows fill f).insertionSort fun a b => ids.asset a.1 ≤ ids.asset b.1).mapM fun x =>
    AssetDelta.make x.1 (truncate (x.2 * 10 ^ 18))

/-- The charges in contracts less the rebates in contracts. -/
def contractFee (f : Findings) : ℚ :=
  ((f.charges.filter (·.amount.asset = fill.economics.outcome)).map (·.amount.amount.value)).sum -
    ((f.rebates.filter (·.amount.asset = fill.economics.outcome)).map (·.amount.amount.value)).sum

/-- What the fee costs at payout. -/
def payoutImpact (f : Findings) : Except String AssetAmount := do
  let amount ← fixed (contractFee fill f * fill.economics.payout.amount.value) 18
  pure ⟨fill.economics.payout.asset, amount⟩

def evidenceOf (f : Findings) : Evidence :=
  if !f.unknowns.isEmpty then .unknown
  else if !f.assumptions.isEmpty || f.charges.any (·.evidence = .estimate) then
    if f.assumptions = ["kalshi_per_fill_rebates_omitted"] ∧
        f.charges.all (·.evidence = .exactModel) then
      .conditionalBound
    else
      .estimate
  else .exactModel

/-! ## One fill -/

def exclusions : List String :=
  ["gas_bridge_deposit_withdrawal_fcm_costs", "maker_rewards_and_bonuses",
    "builder_fees_no_builder_route"] ++
    if policy.includeAccountRebates then [] else ["hypothetical_account_rebates"]

/-- The role that is assessed. -/
def assumedRole : Role :=
  if fill.role = .unknown ∧ policy.assumeUnknownRoleTaker then .taker else fill.role

/-- The assumptions before any component is looked at. -/
def initialFindings (resolved : ResolvedScheduleSet) : Findings :=
  let f : Findings := if resolved.referenceTime.isSome then
    Findings.assume {} "current_snapshot_not_historical_fee_claim" else {}
  if fill.role = .unknown ∧ policy.assumeUnknownRoleTaker then
    f.assume "unknown_role_assumed_taker"
  else f

/-- `FeeEngine.assess` once the schedules are resolved. -/
def assessResolved (resolved : ResolvedScheduleSet) (prior : Option OrderState) :
    Except String (FeeAssessment × Option OrderState) :=
  if resolved.context ≠ fill.context ∨ resolved.eventTime ≠ fill.eventTime then
    .error "resolution belongs to a different fill context/time"
  else do
    let role := assumedRole policy fill
    let (f, state) ← assessPlatform ids policy fill role resolved.platform prior
      (initialFindings policy fill resolved)
    let (f, adjusted) ←
      (if policy.includeAccountRebates ∧ fill.context.venue = .polymarket ∧ role = .taker then
        assessAccount fill resolved.account f
      else .ok (f, false) : Except String (Findings × Bool))
    let (net, payout) ←
      (if f.unknowns.isEmpty then do
        let net ← netDeltas ids fill f
        let payout ← payoutImpact fill f
        pure (some net, some payout)
      else .ok (none, none) : Except String (Option (List AssetDelta) × Option AssetAmount))
    pure ({
      fill := fill
      resolved := resolved
      policy := policy
      basis := if adjusted then .accountAdjusted else if role = .maker then .maker else .baseTaker
      evidence := evidenceOf f
      charges := f.charges
      rebates := f.rebates
      unknowns := f.unknowns
      netDeltas := net
      contractFeePayoutImpact := payout
      assumptions := f.assumptions
      exclusions := exclusions policy
      priorOrderState := prior }, state)

end Fill

namespace FeeEngine

variable (ids : Identities) (e : FeeEngine)

/-- `FeeEngine.assess`. -/
def assess (fill : HypotheticalFill) (resolved : Option ResolvedScheduleSet)
    (prior : Option OrderState) : Except String (FeeAssessment × Option OrderState) :=
  match e.resolver, resolved with
  | some _, some _ => .error "cannot override constructor-bound snapshot"
  | some r, none => do
    let resolved ← r.resolve fill.context fill.eventTime none
    assessResolved ids e.policy fill resolved prior
  | none, some resolved => assessResolved ids e.policy fill resolved prior
  | none, none => .error "closed hypothetical inputs required"

/-! ## Many fills -/

/-- What keeps the state of an order apart from that of others. -/
structure OrderKey where
  venue : Venue
  account : String
  subaccount : String
  orderKey : String
  counterfactualRevision : Option String
deriving DecidableEq

def keyOf (fill : HypotheticalFill) : OrderKey :=
  ⟨fill.context.venue, fill.context.account, fill.context.subaccount, fill.orderKey,
    fill.counterfactualRevision⟩

/-- The state of the loop. An order that has been seen has a state, which may be unknown. -/
structure Progress where
  states : OrderKey → Option (Option OrderState) := fun _ => none
  seen : List String := []
  lastTime : Int := -1

/-- One round of the loop. -/
def assessNext (resolver : Option Resolver) (cutoff : Option Nat) (p : Progress)
    (fill : HypotheticalFill) : Except String (FeeAssessment × Option OrderState × Progress) := do
  let key := keyOf fill
  if (fill.eventTime : Int) < p.lastTime ∨ ids.fill fill ∈ p.seen then
    .error "duplicate or out-of-order fills"
  else if fill.newOrder ∧ (p.states key).isSome then
    .error "duplicate new-order declaration"
  else do
    let resolved ← resolver.mapM fun r => r.resolve fill.context fill.eventTime cutoff
    let (result, state) ← e.assess ids fill resolved ((p.states key).getD none)
    pure (result, state, {
      states := Function.update p.states key (some state)
      seen := p.seen ++ [ids.fill fill]
      lastTime := fill.eventTime })

/-- The loop, with the state each fill leaves its order in. -/
def assessLoop (resolver : Option Resolver) (cutoff : Option Nat) (p : Progress) :
    List HypotheticalFill → Except String (List (FeeAssessment × Option OrderState))
  | [] => .ok []
  | fill :: rest => do
    let (result, state, p) ← e.assessNext ids resolver cutoff p fill
    let results ← assessLoop resolver cutoff p rest
    pure ((result, state) :: results)

/-- The fills and the states they leave, checked as `assess_many` checks its arguments. -/
def assessStates (fills : List HypotheticalFill) (resolver : Option Resolver)
    (cutoff : Option Nat) : Except String (List (FeeAssessment × Option OrderState)) :=
  if e.resolver.isSome then
    if resolver.isSome ∨ cutoff.isSome then .error "cannot override constructor-bound snapshot"
    else e.assessLoop ids none none {} fills
  else if resolver.isNone then .error "resolver required for unbound engine"
  else e.assessLoop ids resolver cutoff {} fills

/-- `FeeEngine.assess_many`. -/
def assessMany (fills : List HypotheticalFill) (resolver : Option Resolver)
    (cutoff : Option Nat) : Except String (List FeeAssessment) := do
  let results ← e.assessStates ids fills resolver cutoff
  pure (results.map (·.1))

end FeeEngine

end PredictionIndexer.Fees
