import PredictionIndexer.Spec.FeeDeltas

/-!
# The rounding carry of an order

A Kalshi fill pays what its balance change is above the grid, and the accumulator of its order
gives whole grid steps of that back. `Balanced` says what one such fill does to the carry. The
loop of `assess_many` threads the accumulators through one map; `Threaded` is what that comes to
for one order, and `assessLoop_filter` that nothing of the other orders is in it.
-/

namespace PredictionIndexer.Fees

/-! ## Conversions -/

theorem make_eq_ok {atoms : Int} {scale : Nat} {f : Fixed} (h : Fixed.make atoms scale = .ok f) :
    0 ≤ atoms ∧ f.value = atoms / 10 ^ scale := by
  unfold Fixed.make at h
  split at h
  · cases h
  · split at h
    · next hok =>
      cases h
      refine ⟨hok.2, ?_⟩
      have hcast : ((atoms.toNat : ℤ) : ℚ) = atoms := by rw [Int.toNat_of_nonneg hok.2]
      rw [Fixed.value, ← hcast]
      push_cast
      rfl
    · cases h

/-- An exact conversion keeps the value, which is not negative. -/
theorem fixed_eq_ok {value : ℚ} {scale : Nat} {f : Fixed} (h : fixed value scale = .ok f) :
    f.value = value ∧ 0 ≤ value := by
  unfold fixed at h
  split at h
  · cases h
  · split at h
    · cases h
    · next hden =>
      simp only [ne_eq, not_not] at hden
      obtain ⟨hnonneg, hvalue⟩ := make_eq_ok h
      have hnum : ((value * 10 ^ scale).num : ℚ) = value * 10 ^ scale :=
        (Rat.den_eq_one_iff _).mp hden
      have hpow : (0 : ℚ) < 10 ^ scale := by positivity
      rw [hnum, mul_div_assoc, div_self hpow.ne', mul_one] at hvalue
      refine ⟨hvalue, ?_⟩
      have hscaled : (0 : ℚ) ≤ value * 10 ^ scale := by
        rw [← hnum]
        exact_mod_cast hnonneg
      exact nonneg_of_mul_nonneg_left hscaled hpow

theorem Fixed.value_nonneg (f : Fixed) : 0 ≤ f.value := by
  unfold Fixed.value
  positivity

theorem previousCarry_nonneg (prior : Option OrderState) : 0 ≤ previousCarry prior := by
  cases prior with
  | none => exact le_rfl
  | some s => exact s.carry.value_nonneg

/-! ## One fill of an order -/

section Grid

variable (policy : Policy) (fill : HypotheticalFill)

theorem grid_pos : 0 < grid policy := by
  unfold grid
  positivity

theorem roundingCharge_nonneg (tradeFee : ℚ) : 0 ≤ roundingCharge policy fill tradeFee :=
  Int.sub_floor_div_mul_nonneg _ (grid_pos policy)

theorem roundingCharge_lt (tradeFee : ℚ) : roundingCharge policy fill tradeFee < grid policy :=
  Int.sub_floor_div_mul_lt _ (grid_pos policy)

/-- The rounding charge takes the balance change down to the grid. -/
theorem sub_roundingCharge (tradeFee : ℚ) : ∃ k : ℤ,
    revenue fill - tradeFee - roundingCharge policy fill tradeFee = k * grid policy :=
  ⟨⌊(revenue fill - tradeFee) / grid policy⌋, by rw [roundingCharge]; ring⟩

theorem grid_mul_floor_le (x : ℚ) : grid policy * ⌊x / grid policy⌋ ≤ x := by
  have hpos := grid_pos policy
  have h := Int.sub_floor_div_mul_nonneg x hpos
  linarith [mul_comm (grid policy) (⌊x / grid policy⌋ : ℚ)]

theorem grantedRebate_le_carry (previous tradeFee rounding : ℚ) :
    grantedRebate policy previous tradeFee rounding ≤ previous + rounding := by
  refine le_trans ?_ (grid_mul_floor_le policy (previous + rounding))
  exact mul_le_mul_of_nonneg_left (by exact_mod_cast min_le_left _ _) (grid_pos policy).le

theorem grantedRebate_le_paid (previous tradeFee rounding : ℚ) :
    grantedRebate policy previous tradeFee rounding ≤ tradeFee + rounding := by
  refine le_trans ?_ (grid_mul_floor_le policy (tradeFee + rounding))
  exact mul_le_mul_of_nonneg_left (by exact_mod_cast min_le_right _ _) (grid_pos policy).le

theorem grantedRebate_nonneg {previous tradeFee rounding : ℚ} (hprevious : 0 ≤ previous)
    (hfee : 0 ≤ tradeFee) (hrounding : 0 ≤ rounding) :
    0 ≤ grantedRebate policy previous tradeFee rounding := by
  have hpos := grid_pos policy
  have hleft : 0 ≤ ⌊(previous + rounding) / grid policy⌋ :=
    Int.floor_nonneg.mpr (div_nonneg (add_nonneg hprevious hrounding) hpos.le)
  have hright : 0 ≤ ⌊(tradeFee + rounding) / grid policy⌋ :=
    Int.floor_nonneg.mpr (div_nonneg (add_nonneg hfee hrounding) hpos.le)
  exact mul_nonneg hpos.le (by exact_mod_cast le_min hleft hright)

end Grid

/-- The charges or rebates of one component. -/
def componentOf (entries : List FeeEntry) (c : Component) : ℚ :=
  ((entries.filter (·.component = c)).map (·.amount.amount.value)).sum

namespace FeeAssessment

variable (a : FeeAssessment)

def tradeFee : ℚ := componentOf a.charges .platform

def rounding : ℚ := componentOf a.charges .rounding

/-- What the accumulator of the order gives back for this fill. The assessment lists it as a
    rebate when the policy includes rounding refunds. -/
def granted : ℚ :=
  grantedRebate a.policy (previousCarry a.priorOrderState) a.tradeFee a.rounding

/-- What the fill does to the quote balance after its charges and what is granted. -/
def balanceChange : ℚ := revenue a.fill - a.tradeFee - a.rounding + a.granted

/-- The accounts of one fill that leaves its order in a known state. -/
structure Balanced (a : FeeAssessment) (s : OrderState) : Prop where
  onGrid : ∃ k : ℤ, a.balanceChange = k * grid a.policy
  rounding_nonneg : 0 ≤ a.rounding
  rounding_lt : a.rounding < grid a.policy
  granted_nonneg : 0 ≤ a.granted
  granted_le : a.granted ≤ a.tradeFee + a.rounding
  carry : s.carry.value = previousCarry a.priorOrderState + a.rounding - a.granted
  carry_nonneg : 0 ≤ s.carry.value
  listed : componentOf a.rebates .rounding =
    if a.policy.includeRoundingRefunds then a.granted else 0

end FeeAssessment

section Steps

variable {ids : Identities} {policy : Policy} {fill : HypotheticalFill} {f f' : Findings}
  {prior : Option OrderState} {s : OrderState}

/-- What `accumulate` does when the state of the order is known. -/
theorem accumulate_eq_ok {tradeFee rounding : ℚ}
    (h : accumulate ids policy fill tradeFee rounding prior f = .ok (f', some s)) :
    f'.charges = f.charges ∧
      s.carry.value = previousCarry prior + rounding -
        grantedRebate policy (previousCarry prior) tradeFee rounding ∧
      ∃ refunds : List FeeEntry, f'.rebates = f.rebates ++ refunds ∧
        componentOf refunds .rounding = if policy.includeRoundingRefunds then
          grantedRebate policy (previousCarry prior) tradeFee rounding else 0 := by
  unfold accumulate at h
  obtain ⟨⟨f₁, state⟩, hstate, h⟩ := Except.bind_eq_ok.mp h
  have hframe : f'.charges = f₁.charges ∧ f'.rebates = f₁.rebates ∧ state = some s := by
    dsimp only at h
    split at h
    · cases h
      exact ⟨rfl, rfl, rfl⟩
    · cases h
      exact ⟨rfl, rfl, rfl⟩
  obtain ⟨hcharges, hrebates, rfl⟩ := hframe
  rw [hcharges, hrebates]
  split at hstate
  · obtain ⟨carry, hcarry, hstate⟩ := Except.bind_eq_ok.mp hstate
    have hvalue := (fixed_eq_ok hcarry).1
    split at hstate
    · next hinclude =>
      obtain ⟨amount, hamount, hstate⟩ := Except.bind_eq_ok.mp hstate
      cases hstate
      have hgranted := (fixed_eq_ok hamount).1
      refine ⟨rfl, hvalue, _, rfl, ?_⟩
      rw [if_pos hinclude]
      simpa [componentOf] using hgranted
    · next hinclude =>
      cases hstate
      refine ⟨rfl, hvalue, [], by simp, ?_⟩
      rw [if_neg hinclude]
      rfl
  · split at hstate
    · cases hstate
    · cases hstate

/-- The two charges of a Kalshi fill, and its order's carry. -/
structure Settled (policy : Policy) (fill : HypotheticalFill) (prior : Option OrderState)
    (f : Findings) (s : OrderState) : Prop where
  settled : ∃ tradeFee, 0 ≤ tradeFee ∧ componentOf f.charges .platform = tradeFee ∧
    componentOf f.charges .rounding = roundingCharge policy fill tradeFee ∧
    s.carry.value = previousCarry prior + roundingCharge policy fill tradeFee -
      grantedRebate policy (previousCarry prior) tradeFee (roundingCharge policy fill tradeFee) ∧
    componentOf f.rebates .rounding = if policy.includeRoundingRefunds then
      grantedRebate policy (previousCarry prior) tradeFee (roundingCharge policy fill tradeFee)
      else 0

theorem assessKalshi_eq_ok {role : Role} {kind : Option KalshiKind} {multiplier : Option Fixed}
    {sch : Schedule} (hcharges : f.charges = []) (hrebates : f.rebates = [])
    (h : assessKalshi ids policy fill role kind multiplier sch prior f = .ok (f', some s)) :
    Settled policy fill prior f' s := by
  unfold assessKalshi at h
  split at h
  · split at h
    · cases h
    · split at h
      · cases h
      · obtain ⟨tradeFee, _, h⟩ := Except.bind_eq_ok.mp h
        obtain ⟨rounding, hrounding, h⟩ := Except.bind_eq_ok.mp h
        obtain ⟨hcharges', hcarry, refunds, hrefunds, hlisted⟩ := accumulate_eq_ok h
        have hvalue := (fixed_eq_ok hrounding).1
        rw [hvalue] at hcarry hlisted
        refine ⟨tradeFee.value, tradeFee.value_nonneg, ?_, ?_, hcarry, ?_⟩
        · rw [hcharges']
          simp [Findings.charge, hcharges, componentOf]
        · rw [hcharges', ← hvalue]
          simp [Findings.charge, hcharges, componentOf]
        · rw [hrefunds]
          simpa [Findings.charge, hrebates] using hlisted
  · cases h

theorem validateSelection_eq_ok {r : Resolved} {e : InstrumentEconomics} {sel : Option Selection}
    (h : validateSelection r e f = .ok (sel, f')) :
    f'.charges = f.charges ∧ f'.rebates = f.rebates := by
  unfold validateSelection at h
  split at h
  · cases h
    exact ⟨rfl, rfl⟩
  · split at h
    · cases h
    · cases h
      exact ⟨rfl, rfl⟩

theorem assessModel_eq_ok {role : Role} {sel : Selection} (hcharges : f.charges = [])
    (hrebates : f.rebates = [])
    (h : assessModel ids policy fill role sel prior f = .ok (f', some s)) :
    Settled policy fill prior f' s := by
  unfold assessModel at h
  dsimp only at h
  split at h
  · cases h
  · split at h
    · split at h
      · cases h
      · cases h
    · split at h
      · cases h
      · split at h
        · obtain ⟨_, _, h⟩ := Except.bind_eq_ok.mp h
          cases h
        · exact assessKalshi_eq_ok hcharges hrebates h
        · split at h
          · cases h
          · split at h
            · cases h
            · split at h
              · obtain ⟨_, _, h⟩ := Except.bind_eq_ok.mp h
                cases h
              · cases h
        · obtain ⟨_, _, h⟩ := Except.bind_eq_ok.mp h
          cases h
        · cases h

theorem assessPlatform_eq_ok {role : Role} {platform : Resolved} (hcharges : f.charges = [])
    (hrebates : f.rebates = [])
    (h : assessPlatform ids policy fill role platform prior f = .ok (f', some s)) :
    Settled policy fill prior f' s := by
  unfold assessPlatform at h
  split at h
  · obtain ⟨_, _, h⟩ := Except.bind_eq_ok.mp h
    cases h
  · obtain ⟨⟨sel, f₁⟩, hsel, h⟩ := Except.bind_eq_ok.mp h
    obtain ⟨hcharges₁, hrebates₁⟩ := validateSelection_eq_ok hsel
    dsimp only at h
    split at h
    · exact assessModel_eq_ok (hcharges₁.trans hcharges) (hrebates₁.trans hrebates) h
    · cases h

theorem rounded_eq_ok {raw : ℚ} {sch : Schedule} {rounding : Rounding} {amount : Option Fixed}
    (h : rounded raw sch rounding f = .ok (amount, f')) :
    f'.charges = f.charges ∧ f'.rebates = f.rebates := by
  unfold rounded at h
  split at h
  · obtain ⟨_, _, h⟩ := Except.bind_eq_ok.mp h
    cases h
    exact ⟨rfl, rfl⟩
  · split at h
    · obtain ⟨_, _, h⟩ := Except.bind_eq_ok.mp h
      cases h
      exact ⟨rfl, rfl⟩
    · cases h
      exact ⟨rfl, rfl⟩

/-- An account rebate is no rounding refund, and no charge. -/
theorem assessAccount_eq_ok {account : Resolved} {adjusted : Bool}
    (h : assessAccount fill account f = .ok (f', adjusted)) :
    f'.charges = f.charges ∧
      componentOf f'.rebates .rounding = componentOf f.rebates .rounding := by
  unfold assessAccount at h
  obtain ⟨⟨sel, f₁⟩, hsel, h⟩ := Except.bind_eq_ok.mp h
  obtain ⟨hcharges₁, hrebates₁⟩ := validateSelection_eq_ok hsel
  rw [← hcharges₁, ← hrebates₁]
  dsimp only at h
  split at h
  · cases h
    exact ⟨rfl, rfl⟩
  · split at h
    · split at h
      · cases h
        exact ⟨rfl, rfl⟩
      · split at h
        · cases h
          exact ⟨rfl, rfl⟩
        · obtain ⟨⟨amount, f₂⟩, hrounded, h⟩ := Except.bind_eq_ok.mp h
          obtain ⟨hcharges₂, hrebates₂⟩ := rounded_eq_ok hrounded
          dsimp only at h
          split at h
          · cases h
            simp [Findings.rebate, hcharges₂, hrebates₂, componentOf]
          · cases h
            exact ⟨hcharges₂, by rw [hrebates₂]⟩
    · cases h
      exact ⟨rfl, rfl⟩

theorem initialFindings_entries (policy : Policy) (fill : HypotheticalFill)
    (resolved : ResolvedScheduleSet) : (initialFindings policy fill resolved).charges = [] ∧
      (initialFindings policy fill resolved).rebates = [] := by
  unfold initialFindings
  split <;> split <;> exact ⟨rfl, rfl⟩

/-- What the two charges and the carry come to. -/
theorem balanced_of_settled {a : FeeAssessment} {tradeFee : ℚ} (hfee : 0 ≤ tradeFee)
    (hplatform : componentOf a.charges .platform = tradeFee)
    (hrounding : componentOf a.charges .rounding = roundingCharge a.policy a.fill tradeFee)
    (hcarry : s.carry.value = previousCarry a.priorOrderState +
      roundingCharge a.policy a.fill tradeFee - grantedRebate a.policy
        (previousCarry a.priorOrderState) tradeFee (roundingCharge a.policy a.fill tradeFee))
    (hlisted : componentOf a.rebates .rounding = if a.policy.includeRoundingRefunds then
      grantedRebate a.policy (previousCarry a.priorOrderState) tradeFee
        (roundingCharge a.policy a.fill tradeFee) else 0) : a.Balanced s := by
  have htradeFee : a.tradeFee = tradeFee := hplatform
  have hcharge : a.rounding = roundingCharge a.policy a.fill tradeFee := hrounding
  have hgranted : a.granted = grantedRebate a.policy (previousCarry a.priorOrderState) tradeFee
      (roundingCharge a.policy a.fill tradeFee) := by
    rw [FeeAssessment.granted, htradeFee, hcharge]
  have hprevious : 0 ≤ previousCarry a.priorOrderState := previousCarry_nonneg _
  have hnonneg := roundingCharge_nonneg a.policy a.fill tradeFee
  rw [← hgranted, ← hcharge] at hcarry
  rw [← hgranted] at hlisted
  constructor
  case onGrid =>
    obtain ⟨k, hk⟩ := sub_roundingCharge a.policy a.fill tradeFee
    refine ⟨k + min ⌊(previousCarry a.priorOrderState +
      roundingCharge a.policy a.fill tradeFee) / grid a.policy⌋
      ⌊(tradeFee + roundingCharge a.policy a.fill tradeFee) / grid a.policy⌋, ?_⟩
    rw [FeeAssessment.balanceChange, hgranted, hcharge, htradeFee, hk, grantedRebate]
    push_cast
    ring
  case rounding_nonneg => rwa [hcharge]
  case rounding_lt => rw [hcharge]; exact roundingCharge_lt _ _ _
  case granted_nonneg => rw [hgranted]; exact grantedRebate_nonneg _ hprevious hfee hnonneg
  case granted_le =>
    rw [hgranted, htradeFee, hcharge]
    exact grantedRebate_le_paid _ _ _ _
  case carry => exact hcarry
  case carry_nonneg => exact s.carry.value_nonneg
  case listed => exact hlisted

/-- One assessed fill: what it is an assessment of, its net deltas, and the order it leaves. -/
theorem assessResolved_eq_ok {resolved : ResolvedScheduleSet} {a : FeeAssessment}
    {state : Option OrderState}
    (h : assessResolved ids policy fill resolved prior = .ok (a, state)) :
    a.fill = fill ∧ a.policy = policy ∧ a.priorOrderState = prior ∧
      (a.unknowns = [] → ∃ ds, a.netDeltas = some ds ∧ (ds.map (·.asset)).Nodup ∧
        ∀ asset, deltaOf ds asset =
          grossOf fill asset - entriesOf a.charges asset + entriesOf a.rebates asset) ∧
      ∀ s ∈ state, a.Balanced s := by
  unfold assessResolved at h
  split at h
  · cases h
  · obtain ⟨⟨f₁, state₁⟩, hplatform, h⟩ := Except.bind_eq_ok.mp h
    obtain ⟨⟨f₂, adjusted⟩, haccount, h⟩ := Except.bind_eq_ok.mp h
    obtain ⟨⟨net, payout⟩, hnet, h⟩ := Except.bind_eq_ok.mp h
    cases h
    have hframe : f₂.charges = f₁.charges ∧
        componentOf f₂.rebates .rounding = componentOf f₁.rebates .rounding := by
      split at haccount
      · exact assessAccount_eq_ok haccount
      · cases haccount
        exact ⟨rfl, rfl⟩
    refine ⟨rfl, rfl, rfl, ?_, ?_⟩
    · intro hunknowns
      dsimp only at hunknowns
      rw [hunknowns, List.isEmpty_nil, if_pos rfl] at hnet
      obtain ⟨ds, hds, hnet⟩ := Except.bind_eq_ok.mp hnet
      obtain ⟨_, _, hnet⟩ := Except.bind_eq_ok.mp hnet
      cases hnet
      obtain ⟨hnodup, hconserve⟩ := netDeltas_conserve hds
      exact ⟨ds, rfl, hnodup, hconserve⟩
    · intro s hs
      obtain rfl := Option.mem_def.mp hs
      obtain ⟨hcharges, hrebates⟩ := initialFindings_entries policy fill resolved
      obtain ⟨tradeFee, hfee, hplatformFee, hrounding, hcarry, hlisted⟩ :=
        (assessPlatform_eq_ok hcharges hrebates hplatform).settled
      rw [← hframe.1] at hplatformFee hrounding
      rw [← hframe.2] at hlisted
      exact balanced_of_settled hfee hplatformFee hrounding hcarry hlisted

end Steps

end PredictionIndexer.Fees
