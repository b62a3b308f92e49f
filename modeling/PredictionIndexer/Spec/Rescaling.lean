import PredictionIndexer.Spec.DecimalParsing

/-!
# Rescaling is exact

A rescale returns the one integer that stands for the same value at the new scale, when the type
has it, and an error otherwise. Nothing overflows on the way for a value that is not negative.

`rescale_i64` casts to `u128` first, so a negative value is a huge one there. No price is
negative, and no other caller exists.
-/

namespace PredictionIndexer.Engine

open Fallible (Arithmetic)

/-- The number that some atoms stand for. -/
def decimalValue (atoms : Int) (scale : DecimalScale) : ℚ := atoms / 10 ^ scale.exponent

/-- A computation returns a value of its type that stands for the same number, whenever there is
    one, and it does not panic. -/
def RescalesExactly {α : Type} (read : α → Int) (valid : Int → Prop) (atoms : Int)
    (source destination : DecimalScale) (x : Except NumericHalt α) : Prop :=
  (∀ b, x = .ok b →
    valid (read b) ∧ decimalValue (read b) destination = decimalValue atoms source) ∧
  ((∃ n, valid n ∧ decimalValue n destination = decimalValue atoms source) → ∃ b, x = .ok b) ∧
  x ≠ .error .panic

section Value

variable {a b : Int} {s d : DecimalScale}

theorem decimalValue_eq_iff :
    decimalValue b d = decimalValue a s ↔ b * 10 ^ s.exponent = a * 10 ^ d.exponent := by
  have hs : (10 : ℚ) ^ s.exponent ≠ 0 := by positivity
  have hd : (10 : ℚ) ^ d.exponent ≠ 0 := by positivity
  unfold decimalValue
  rw [div_eq_div_iff hd hs]
  norm_cast

theorem decimalValue_inj (h : decimalValue a s = decimalValue b s) : a = b := by
  have hpos : (0 : Int) < 10 ^ s.exponent := by positivity
  exact Int.eq_of_mul_eq_mul_right hpos.ne' (decimalValue_eq_iff.mp h)

end Value

/-! ## The shared step -/

section Rescale

variable {mode : Arithmetic} {limit value n : Nat} {s d : DecimalScale}

theorem pow_sub_lt (s d : DecimalScale) : 10 ^ (d.exponent - s.exponent) ≤ 10 ^ 18 := by
  have hle := d.exponent_le
  unfold maxDecimalScale at hle
  exact Nat.pow_le_pow_right (by decide) (by omega)

theorem powerOfTen_sub : powerOfTen mode (d.exponent - s.exponent) =
    .ok (10 ^ (d.exponent - s.exponent)) := by
  have hle := pow_sub_lt s d
  exact unchecked_of_lt (by omega)

/-- Towards more digits the value is multiplied. -/
theorem rescale_up (h : s.exponent < d.exponent) (hvalue : value < 2 ^ 64) :
    rescale mode limit value s d = narrow limit (value * 10 ^ (d.exponent - s.exponent)) := by
  have hprod : value * 10 ^ (d.exponent - s.exponent) < 2 ^ 128 := by
    calc value * 10 ^ (d.exponent - s.exponent) ≤ value * 10 ^ 18 :=
          Nat.mul_le_mul_left _ (pow_sub_lt s d)
      _ < 2 ^ 128 := by omega
  unfold rescale
  rw [if_pos h, powerOfTen_sub, Except.ok_bind, unchecked_of_lt hprod, Except.ok_bind]

/-- Towards fewer digits it is divided, if that leaves nothing. -/
theorem rescale_down (h : ¬s.exponent < d.exponent) :
    rescale mode limit value s d =
      if value % 10 ^ (s.exponent - d.exponent) ≠ 0 then
        if value ≠ 0 ∧ value < 10 ^ (s.exponent - d.exponent) then .error (.error .underflow)
        else .error (.error .inexactRescale)
      else narrow limit (value / 10 ^ (s.exponent - d.exponent)) := by
  unfold rescale
  rw [if_neg h, powerOfTen_sub, Except.ok_bind]

theorem narrow_eq_ok : narrow limit value = .ok n ↔ value < limit ∧ n = value := by
  unfold narrow
  split <;> simp_all [eq_comm]

theorem narrow_ne_panic : narrow limit value ≠ .error .panic := by
  unfold narrow
  split <;> simp

theorem pow_split {i j : Nat} (h : i ≤ j) : 10 ^ j = 10 ^ (j - i) * 10 ^ i := by
  rw [← Nat.pow_add, Nat.sub_add_cancel h]

theorem rescale_eq_ok (hvalue : value < 2 ^ 64) : rescale mode limit value s d = .ok n ↔
    n < limit ∧ n * 10 ^ s.exponent = value * 10 ^ d.exponent := by
  by_cases h : s.exponent < d.exponent
  · have hpos : 0 < 10 ^ s.exponent := by positivity
    rw [rescale_up h hvalue, narrow_eq_ok, pow_split h.le, ← Nat.mul_assoc]
    constructor
    · rintro ⟨hlt, rfl⟩
      exact ⟨hlt, rfl⟩
    · rintro ⟨hlt, heq⟩
      have hn := Nat.eq_of_mul_eq_mul_right hpos heq
      exact ⟨hn ▸ hlt, hn⟩
  · have hpos : 0 < 10 ^ d.exponent := by positivity
    have hpow : 0 < 10 ^ (s.exponent - d.exponent) := by positivity
    rw [rescale_down h, pow_split (not_lt.mp h), ← Nat.mul_assoc]
    have hcancel : n * 10 ^ (s.exponent - d.exponent) * 10 ^ d.exponent =
        value * 10 ^ d.exponent ↔ n * 10 ^ (s.exponent - d.exponent) = value :=
      Nat.mul_right_cancel_iff hpos
    rw [hcancel]
    by_cases hdvd : value % 10 ^ (s.exponent - d.exponent) = 0
    · rw [if_neg (by simpa using hdvd), narrow_eq_ok]
      have hdiv := Nat.div_mul_cancel (Nat.dvd_of_mod_eq_zero hdvd)
      constructor
      · rintro ⟨hlt, rfl⟩
        exact ⟨hlt, hdiv⟩
      · rintro ⟨hlt, rfl⟩
        rw [Nat.mul_div_cancel _ hpow]
        exact ⟨hlt, rfl⟩
    · -- the remainder is not lost
      rw [if_pos hdvd]
      constructor
      · intro hok
        split at hok <;> cases hok
      · rintro ⟨-, rfl⟩
        exact absurd (Nat.mul_mod_left _ _) hdvd

theorem rescale_ne_panic (hvalue : value < 2 ^ 64) :
    rescale mode limit value s d ≠ .error .panic := by
  by_cases h : s.exponent < d.exponent
  · rw [rescale_up h hvalue]
    exact narrow_ne_panic
  · rw [rescale_down h]
    split
    · split <;> simp
    · exact narrow_ne_panic

/-- A narrower type refuses more, and nothing else changes. -/
theorem rescale_narrower {limit' : Nat} (hlimit : limit ≤ limit') (hvalue : value < 2 ^ 64) :
    rescale mode limit value s d = (rescale mode limit' value s d).bind (narrow limit) := by
  have hnarrow : ∀ n, narrow limit n = (narrow limit' n).bind (narrow limit) := by
    intro n
    by_cases hn : n < limit'
    · simp [narrow, hn, Except.bind]
    · have hn' : ¬n < limit := by omega
      simp [narrow, hn, hn', Except.bind]
  by_cases h : s.exponent < d.exponent
  · rw [rescale_up h hvalue, rescale_up h hvalue]
    exact hnarrow _
  · rw [rescale_down h, rescale_down h]
    split
    · split <;> rfl
    · exact hnarrow _

end Rescale

/-! ## The two integer types -/

section Integers

variable (mode : Arithmetic) (s d : DecimalScale)

theorem rescaleU64_eq_ok {a n : Nat} (ha : a < 2 ^ 64) : rescaleU64 mode a s d = .ok n ↔
    n < 2 ^ 64 ∧ decimalValue n d = decimalValue a s := by
  rw [decimalValue_eq_iff]
  norm_cast
  unfold rescaleU64
  split
  next heq =>
    have hpos : 0 < 10 ^ s.exponent := by positivity
    rw [heq, Nat.mul_right_cancel_iff hpos, Except.ok.injEq]
    constructor
    · rintro rfl
      exact ⟨ha, rfl⟩
    · rintro ⟨-, h⟩
      exact h.symm
  next => exact rescale_eq_ok ha

theorem rescaleU64_ne_panic {a : Nat} (ha : a < 2 ^ 64) :
    rescaleU64 mode a s d ≠ .error .panic := by
  unfold rescaleU64
  split
  · simp
  · exact rescale_ne_panic ha

theorem rescaleU64_exact {a : Nat} (ha : a < 2 ^ 64) :
    RescalesExactly (fun n : Nat => (n : Int)) (fun n => 0 ≤ n ∧ n < 2 ^ 64) a s d
      (rescaleU64 mode a s d) := by
  refine ⟨?_, ?_, rescaleU64_ne_panic mode s d ha⟩
  · intro n hn
    obtain ⟨hlt, hvalue⟩ := (rescaleU64_eq_ok mode s d ha).mp hn
    have hlt' : (n : Int) < 2 ^ 64 := by exact_mod_cast hlt
    exact ⟨⟨Int.natCast_nonneg n, hlt'⟩, hvalue⟩
  · rintro ⟨n, ⟨hnonneg, hlt⟩, hvalue⟩
    obtain ⟨m, rfl⟩ := Int.eq_ofNat_of_zero_le hnonneg
    exact ⟨m, (rescaleU64_eq_ok mode s d ha).mpr ⟨by omega, hvalue⟩⟩

theorem asU128_natCast {a : Nat} (ha : a < 2 ^ 63) : asU128 a = a := by
  unfold asU128
  omega

/-- On values that are not negative the two functions differ in what fits their type only. -/
theorem rescaleI64_natCast {a : Nat} (ha : a < 2 ^ 63) : rescaleI64 mode a s d =
    (rescaleU64 mode a s d).bind fun n =>
      if n < 2 ^ 63 then .ok (n : Int) else .error (.error .overflow) := by
  unfold rescaleI64 rescaleU64
  split
  · simp only [Except.bind]
    rw [if_pos ha]
  · have hwide : a < 2 ^ 64 := by omega
    rw [asU128_natCast ha, rescale_narrower (show 2 ^ 63 ≤ 2 ^ 64 by decide) hwide]
    cases rescale mode (2 ^ 64) a s d with
    | error e => rfl
    | ok n =>
      by_cases hn : n < 2 ^ 63
      · simp only [Except.bind, narrow]
        rw [if_pos hn, if_pos hn]
        rfl
      · simp only [Except.bind, narrow]
        rw [if_neg hn, if_neg hn]
        rfl

theorem rescaleI64_eq_ok {a : Nat} {n : Int} (ha : a < 2 ^ 63) :
    rescaleI64 mode a s d = .ok n ↔
      (-2 ^ 63 ≤ n ∧ n < 2 ^ 63) ∧ decimalValue n d = decimalValue a s := by
  have hwide : a < 2 ^ 64 := by omega
  rw [rescaleI64_natCast mode s d ha]
  constructor
  · intro h
    obtain ⟨m, hm, h⟩ := Except.bind_eq_ok.mp h
    obtain ⟨-, hvalue⟩ := (rescaleU64_eq_ok mode s d hwide).mp hm
    split at h
    next hlt =>
      cases h
      have hlt' : (m : Int) < 2 ^ 63 := by exact_mod_cast hlt
      exact ⟨⟨by omega, hlt'⟩, hvalue⟩
    next => cases h
  · rintro ⟨⟨-, hlt⟩, hvalue⟩
    -- what stands for the same value is not negative either
    have hnonneg : 0 ≤ n := by
      have hpos : (0 : Int) < 10 ^ s.exponent := by positivity
      have hmul := decimalValue_eq_iff.mp hvalue
      have hprod : 0 ≤ n * 10 ^ s.exponent := by
        rw [hmul]
        positivity
      exact nonneg_of_mul_nonneg_left hprod hpos
    obtain ⟨m, rfl⟩ := Int.eq_ofNat_of_zero_le hnonneg
    have hm : m < 2 ^ 63 := by exact_mod_cast hlt
    have hok := (rescaleU64_eq_ok mode s d hwide).mpr ⟨by omega, hvalue⟩
    rw [hok]
    exact if_pos hm

theorem rescaleI64_ne_panic {a : Nat} (ha : a < 2 ^ 63) :
    rescaleI64 mode a s d ≠ .error .panic := by
  have hwide : a < 2 ^ 64 := by omega
  rw [rescaleI64_natCast mode s d ha]
  cases h : rescaleU64 mode a s d with
  | error e =>
    have hne := rescaleU64_ne_panic mode s d hwide
    rw [h] at hne
    simpa [Except.bind] using hne
  | ok n =>
    simp only [Except.bind]
    split <;> simp

theorem rescaleI64_exact {a : Int} (hnonneg : 0 ≤ a) (hlt : a < 2 ^ 63) :
    RescalesExactly id (fun n => -2 ^ 63 ≤ n ∧ n < 2 ^ 63) a s d (rescaleI64 mode a s d) := by
  obtain ⟨m, rfl⟩ := Int.eq_ofNat_of_zero_le hnonneg
  have hm : m < 2 ^ 63 := by exact_mod_cast hlt
  refine ⟨?_, ?_, rescaleI64_ne_panic mode s d hm⟩
  · intro n hn
    exact (rescaleI64_eq_ok mode s d hm).mp hn
  · rintro ⟨n, hvalid, hvalue⟩
    exact ⟨n, (rescaleI64_eq_ok mode s d hm).mpr ⟨hvalid, hvalue⟩⟩

/-- A negative value never reaches another scale: as a `u128` it is far too large. -/
theorem rescaleI64_of_neg {a : Int} (hneg : a < 0) (hle : -2 ^ 63 ≤ a)
    (hne : d.exponent ≠ s.exponent) (n : Int) : rescaleI64 mode a s d ≠ .ok n := by
  obtain ⟨k, hk⟩ : ∃ k : Nat, a = -k := ⟨a.natAbs, by omega⟩
  have hcast : asU128 a = 2 ^ 128 - k := by
    unfold asU128
    omega
  have hlarge : ∀ m, 2 ^ 63 ≤ m → narrow (2 ^ 63) m = .error (.error .overflow) :=
    fun m hm => if_neg (by omega)
  intro hok
  unfold rescaleI64 at hok
  rw [if_neg hne, hcast] at hok
  obtain ⟨m, hm, -⟩ := Except.bind_eq_ok.mp hok
  by_cases h : s.exponent < d.exponent
  · have hpow := pow_sub_lt s d
    have hpos : 0 < 10 ^ (d.exponent - s.exponent) := by positivity
    obtain ⟨f, hf⟩ : ∃ f, f = 10 ^ (d.exponent - s.exponent) := ⟨_, rfl⟩
    have hten : 10 ≤ f := by
      rw [hf]
      exact Nat.le_self_pow (by omega) 10
    rw [← hf] at hpow
    unfold rescale at hm
    rw [if_pos h, powerOfTen_sub, Except.ok_bind, ← hf] at hm
    have hkf : k * f ≤ 2 ^ 63 * 10 ^ 18 := Nat.mul_le_mul (by omega) hpow
    have hkpos : 0 < k * f := Nat.mul_pos (by omega) (by omega)
    have hprod : (2 ^ 128 - k) * f = 2 ^ 128 * f - k * f := Nat.sub_mul _ _ _
    have hover : ¬(2 ^ 128 - k) * f < 2 ^ 128 := by omega
    unfold unchecked at hm
    rw [if_neg hover] at hm
    cases mode with
    | checked => cases hm
    | wrapping =>
      -- modulo `2 ^ 128` it is minus the product, still above `i64::MAX`
      rw [Except.ok_bind, hlarge _ (by omega)] at hm
      cases hm
  · have hpow := pow_sub_lt d s
    obtain ⟨f, hf⟩ : ∃ f, f = 10 ^ (s.exponent - d.exponent) := ⟨_, rfl⟩
    have hpos : 0 < f := by
      rw [hf]
      positivity
    rw [rescale_down h, ← hf] at hm
    rw [← hf] at hpow
    have hquotient : 2 ^ 63 ≤ (2 ^ 128 - k) / f := by
      rw [Nat.le_div_iff_mul_le hpos]
      calc 2 ^ 63 * f ≤ 2 ^ 63 * 10 ^ 18 := Nat.mul_le_mul_left _ hpow
        _ ≤ 2 ^ 128 - k := by omega
    split at hm
    · split at hm <;> cases hm
    · rw [hlarge _ hquotient] at hm
      cases hm

end Integers

/-! ## Prices and quantities -/

section Domain

variable (mode : Arithmetic) (scale : DecimalScale)

/-- A further check on an exact rescale keeps it exact within the narrower type. -/
theorem RescalesExactly.refine {α β : Type} {read : α → Int} {read' : β → Int}
    {valid valid' : Int → Prop} {atoms : Int} {s d : DecimalScale} {x : Except NumericHalt α}
    {f : α → Except NumericHalt β} (h : RescalesExactly read valid atoms s d x)
    (hvalid : ∀ n, valid' n → decimalValue n d = decimalValue atoms s → valid n)
    (hok : ∀ a, x = .ok a → valid' (read a) → ∃ b, f a = .ok b)
    (hread : ∀ a b, x = .ok a → f a = .ok b → valid' (read a) ∧ read' b = read a)
    (hpanic : ∀ a, x = .ok a → f a ≠ .error .panic) :
    RescalesExactly read' valid' atoms s d (x >>= f) := by
  obtain ⟨hexact, hreturns, hne⟩ := h
  refine ⟨?_, ?_, ?_⟩
  · intro b hb
    obtain ⟨a, ha, hfa⟩ := Except.bind_eq_ok.mp hb
    obtain ⟨hva, heq⟩ := hread a b ha hfa
    rw [heq]
    exact ⟨hva, (hexact a ha).2⟩
  · rintro ⟨n, hn, hvalue⟩
    obtain ⟨a, ha⟩ := hreturns ⟨n, hvalid n hn hvalue, hvalue⟩
    have hsame : read a = n := decimalValue_inj ((hexact a ha).2.trans hvalue.symm)
    obtain ⟨b, hb⟩ := hok a ha (hsame ▸ hn)
    exact ⟨b, Except.bind_eq_ok.mpr ⟨a, ha, hb⟩⟩
  · cases hx : x with
    | error e =>
      rw [hx] at hne
      simpa using hne
    | ok a => exact hpanic a hx

theorem px_checkedRescale_exact {price : Px} (h : price.atoms < 2 ^ 63) :
    RescalesExactly Px.atoms (fun n => 0 ≤ n ∧ n < 2 ^ 63) price.atoms price.scale scale
      (price.checkedRescale mode scale) ∧
    ∀ p, price.checkedRescale mode scale = .ok p → p.scale = scale := by
  have hexact := rescaleI64_exact mode price.scale scale price.nonneg h
  constructor
  · refine hexact.refine ?_ ?_ ?_ ?_
    · rintro n ⟨hnonneg, hlt⟩ -
      exact ⟨by omega, hlt⟩
    · rintro n - ⟨hnonneg, -⟩
      exact ⟨_, dif_neg (not_lt.mpr hnonneg)⟩
    · intro n p hn hp
      unfold Px.fromAtoms at hp
      split at hp
      next => cases hp
      next hnonneg =>
        cases hp
        exact ⟨⟨not_lt.mp hnonneg, ((hexact.1 n hn).1).2⟩, rfl⟩
    · intro n _
      unfold Px.fromAtoms
      split <;> simp
  · intro p hp
    obtain ⟨n, -, hp⟩ := Except.bind_eq_ok.mp hp
    unfold Px.fromAtoms at hp
    split at hp
    · cases hp
    · cases hp
      rfl

theorem ofPx_eq (price : Px) : ConditionalMarketPrice.ofPx mode price =
    if h : price.atoms ≤ 10 ^ price.scale.exponent then .ok ⟨price, h⟩
    else .error (.error .conditionalPriceOutOfRange) := by
  have hexp := pow_exponent_le price.scale
  rw [ConditionalMarketPrice.ofPx, unchecked_of_lt (by omega), Except.ok_bind]

/-- A price in `[0, 1]` reaches every scale that has its value, and stays in `[0, 1]`. -/
theorem price_checkedRescale_exact (price : ConditionalMarketPrice) :
    RescalesExactly ConditionalMarketPrice.atoms (fun n => 0 ≤ n ∧ n ≤ 10 ^ scale.exponent)
      price.atoms price.scale scale (price.checkedRescale mode scale) := by
  have hexp : ∀ s : DecimalScale, (10 : Int) ^ s.exponent ≤ 10 ^ 18 :=
    fun s => by exact_mod_cast pow_exponent_le s
  have hsmall : price.px.atoms < 2 ^ 63 := by
    have hle := price.le_one
    have := hexp price.px.scale
    omega
  obtain ⟨hexact, hscale⟩ := px_checkedRescale_exact mode scale hsmall
  refine hexact.refine ?_ ?_ ?_ ?_
  · rintro n ⟨hnonneg, hle⟩ -
    have := hexp scale
    exact ⟨hnonneg, by omega⟩
  · rintro p hp ⟨-, hle⟩
    rw [ofPx_eq, dif_pos (by rw [hscale p hp]; exact hle)]
    exact ⟨_, rfl⟩
  · intro p q hp hq
    rw [ofPx_eq] at hq
    split at hq
    next hle =>
      cases hq
      exact ⟨⟨p.nonneg, by rw [← hscale p hp]; exact hle⟩, rfl⟩
    next => cases hq
  · intro p _
    rw [ofPx_eq]
    split <;> simp

/-- A quantity reaches every scale that has its value within the maximum. -/
theorem qty_checkedRescale_exact (q : Qty) :
    RescalesExactly (fun q : Qty => (q.atoms : Int)) (fun n => 0 ≤ n ∧ n ≤ maxQuantityAtoms)
      q.atoms q.scale scale (q.checkedRescale mode scale) := by
  have hmax : maxQuantityAtoms < 2 ^ 63 := by decide
  have hsmall : q.atoms < 2 ^ 64 := by
    have hle := q.atoms_le
    omega
  have hmagnitude : RescalesExactly (fun m : Magnitude => (m.atoms : Int))
      (fun n => 0 ≤ n ∧ n < 2 ^ 64) q.atoms q.scale scale
      (q.magnitude.checkedRescale mode scale) := by
    refine (rescaleU64_exact mode q.scale scale hsmall).refine ?_ ?_ ?_ ?_
    · exact fun n hn _ => hn
    · exact fun n _ _ => ⟨_, rfl⟩
    · intro n m hn hm
      cases hm
      exact ⟨((rescaleU64_exact mode q.scale scale hsmall).1 n hn).1, rfl⟩
    · intro n _
      simp
  refine hmagnitude.refine ?_ ?_ ?_ ?_
  · rintro n ⟨hnonneg, hle⟩ -
    exact ⟨hnonneg, by omega⟩
  · rintro m - ⟨-, hle⟩
    exact ⟨_, dif_pos (by exact_mod_cast hle)⟩
  · intro m r hm hr
    unfold Qty.ofMagnitude at hr
    split at hr
    next hle =>
      cases hr
      exact ⟨⟨Int.natCast_nonneg _, by exact_mod_cast hle⟩, rfl⟩
    next => cases hr
  · intro m _
    unfold Qty.ofMagnitude
    split <;> simp

theorem positiveQty_checkedRescale_exact (q : PositiveQty) :
    RescalesExactly (fun q : PositiveQty => (q.atoms : Int))
      (fun n => 0 < n ∧ n ≤ maxQuantityAtoms) q.atoms q.scale scale
      (q.checkedRescale mode scale) := by
  refine (qty_checkedRescale_exact mode scale q.qty).refine ?_ ?_ ?_ ?_
  · rintro n ⟨hpos, hle⟩ -
    exact ⟨hpos.le, hle⟩
  · rintro r - ⟨hpos, -⟩
    exact ⟨_, dif_neg (by omega)⟩
  · intro r p hr hp
    unfold PositiveQty.new at hp
    split at hp
    next => cases hp
    next hne =>
      cases hp
      refine ⟨⟨by omega, ((qty_checkedRescale_exact mode scale q.qty).1 r hr).1.2⟩, rfl⟩
  · intro r _
    unfold PositiveQty.new
    split <;> simp

end Domain

/-! ## There and back -/

/-- Rescaling back returns what was there, when that is a value of the type. -/
theorem RescalesExactly.back {α β : Type} {read : α → Int} {read' : β → Int}
    {valid valid' : Int → Prop} {atoms : Int} {s d : DecimalScale} {x : Except NumericHalt α}
    {y : Except NumericHalt β} {a : α} (h : RescalesExactly read valid atoms s d x)
    (ha : x = .ok a) (hback : RescalesExactly read' valid' (read a) d s y)
    (hvalid : valid' atoms) : ∃ b, y = .ok b ∧ read' b = atoms := by
  have hvalue := (h.1 a ha).2
  obtain ⟨b, hb⟩ := hback.2.1 ⟨atoms, hvalid, hvalue.symm⟩
  exact ⟨b, hb, decimalValue_inj ((hback.1 b hb).2.trans hvalue)⟩

theorem rescaleU64_back (mode : Arithmetic) {s d : DecimalScale} {a b : Nat} (ha : a < 2 ^ 64)
    (h : rescaleU64 mode a s d = .ok b) : rescaleU64 mode b d s = .ok a := by
  have hb := ((rescaleU64_eq_ok mode s d ha).mp h).1
  obtain ⟨c, hc, hread⟩ := (rescaleU64_exact mode s d ha).back h (rescaleU64_exact mode d s hb)
    ⟨Int.natCast_nonneg a, by exact_mod_cast ha⟩
  rw [hc, Int.ofNat_inj.mp hread]

theorem rescaleI64_back (mode : Arithmetic) {s d : DecimalScale} {a : Nat} {b : Int}
    (ha : a < 2 ^ 63) (h : rescaleI64 mode a s d = .ok b) : rescaleI64 mode b d s = .ok a := by
  have hwide : a < 2 ^ 64 := by omega
  rw [rescaleI64_natCast mode s d ha] at h
  obtain ⟨n, hn, h⟩ := Except.bind_eq_ok.mp h
  split at h
  next hlt =>
    cases h
    rw [rescaleI64_natCast mode d s hlt, rescaleU64_back mode hwide hn]
    exact if_pos ha
  next => cases h

/-- Rescaling returns the value's atoms at the new scale, whenever the type has them, and is undone
    by rescaling back. The two functions agree on what both types hold, a negative value has no
    rescale, and prices and quantities stay in their range. -/
theorem rescale_exact (mode : Arithmetic) (s d : DecimalScale) :
    (∀ a : Nat, a < 2 ^ 64 →
      RescalesExactly (fun n : Nat => (n : Int)) (fun n => 0 ≤ n ∧ n < 2 ^ 64) a s d
        (rescaleU64 mode a s d) ∧
      ∀ b, rescaleU64 mode a s d = .ok b → rescaleU64 mode b d s = .ok a) ∧
    (∀ a : Nat, a < 2 ^ 63 →
      RescalesExactly id (fun n => -2 ^ 63 ≤ n ∧ n < 2 ^ 63) a s d (rescaleI64 mode a s d) ∧
      (∀ b, rescaleI64 mode a s d = .ok b → rescaleI64 mode b d s = .ok a) ∧
      rescaleI64 mode a s d = (rescaleU64 mode a s d).bind fun n =>
        if n < 2 ^ 63 then .ok (n : Int) else .error (.error .overflow)) ∧
    (∀ a : Int, -2 ^ 63 ≤ a → a < 0 → ∀ n, rescaleI64 mode a s d = .ok n ↔
      d.exponent = s.exponent ∧ n = a) ∧
    (∀ price : ConditionalMarketPrice, price.scale = s →
      RescalesExactly ConditionalMarketPrice.atoms (fun n => 0 ≤ n ∧ n ≤ 10 ^ d.exponent)
        price.atoms s d (price.checkedRescale mode d)) ∧
    (∀ q : Qty, q.scale = s →
      RescalesExactly (fun q : Qty => (q.atoms : Int)) (fun n => 0 ≤ n ∧ n ≤ maxQuantityAtoms)
        q.atoms s d (q.checkedRescale mode d)) ∧
    ∀ q : PositiveQty, q.scale = s →
      RescalesExactly (fun q : PositiveQty => (q.atoms : Int))
        (fun n => 0 < n ∧ n ≤ maxQuantityAtoms) q.atoms s d (q.checkedRescale mode d) := by
  refine ⟨?_, ?_, ?_, ?_, ?_, ?_⟩
  · intro a ha
    exact ⟨rescaleU64_exact mode s d ha, fun b hb => rescaleU64_back mode ha hb⟩
  · intro a ha
    exact ⟨rescaleI64_exact mode s d (Int.natCast_nonneg a) (by exact_mod_cast ha),
      fun b hb => rescaleI64_back mode ha hb, rescaleI64_natCast mode s d ha⟩
  · intro a hle hneg n
    by_cases hsame : d.exponent = s.exponent
    · rw [rescaleI64, if_pos hsame, Except.ok.injEq]
      exact ⟨fun h => ⟨hsame, h.symm⟩, fun h => h.2.symm⟩
    · exact ⟨fun h => absurd h (rescaleI64_of_neg mode s d hneg hle hsame n),
        fun h => absurd h.1 hsame⟩
  · rintro price rfl
    exact price_checkedRescale_exact mode d price
  · rintro q rfl
    exact qty_checkedRescale_exact mode d q
  · rintro q rfl
    exact positiveQty_checkedRescale_exact mode d q

theorem two_le_maxDecimalScale : 2 ≤ maxDecimalScale := by decide

/-- Whole units, and hundredths. -/
def units : DecimalScale := ⟨0, Nat.zero_le _⟩

def hundredths : DecimalScale := ⟨2, two_le_maxDecimalScale⟩

/-- Seven units are seven hundred hundredths, and back. -/
theorem rescale_exact_seven :
    rescaleU64 .checked 7 units hundredths = .ok 700 ∧
    rescaleU64 .checked 700 hundredths units = .ok 7 ∧
    rescaleI64 .checked 700 hundredths units = .ok 7 := by
  have hup : rescaleU64 .checked 7 units hundredths = .ok 700 := by decide
  have hup' : rescaleI64 .checked (7 : Nat) units hundredths = .ok 700 := by decide
  obtain ⟨hunsigned, hsigned, -⟩ := rescale_exact .checked units hundredths
  exact ⟨hup, (hunsigned 7 (by decide)).2 700 hup, (hsigned 7 (by decide)).2.1 700 hup'⟩

/-- Minus one hundred hundredths are minus one unit, but the signed rescale does not say so; in the
    other direction it overflows. -/
theorem negative_is_not_rescaled :
    decimalValue (-1) units = decimalValue (-100) hundredths ∧
    rescaleI64 .checked (-100) hundredths units = .error (.error .inexactRescale) ∧
    rescaleI64 .wrapping (-100) hundredths units = .error (.error .inexactRescale) ∧
    rescaleI64 .checked (-1) units hundredths = .error .panic ∧
    rescaleI64 .wrapping (-1) units hundredths = .error (.error .overflow) := by
  refine ⟨decimalValue_eq_iff.mpr (by decide), ?_, ?_, ?_, ?_⟩ <;> decide +kernel

end PredictionIndexer.Engine
