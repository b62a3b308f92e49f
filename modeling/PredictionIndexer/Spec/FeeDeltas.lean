import PredictionIndexer.Fees.Engine

/-!
# Net deltas conserve every asset

The engine adds up rationals and writes integers of `10 ^ -18`. Every amount that goes in is a
whole number of these (`Atomic`), so nothing is truncated: the delta of an asset is its gross flow
less the charges and plus the rebates in it (`netDeltas_conserve`).
-/

namespace PredictionIndexer.Fees

/-! ## Whole atoms -/

/-- A whole number of `10 ^ -18`. -/
def Atomic (v : ℚ) : Prop := ∃ n : ℤ, v * 10 ^ 18 = n

theorem Atomic.zero : Atomic 0 := ⟨0, by simp⟩

theorem Atomic.add {v w : ℚ} (hv : Atomic v) (hw : Atomic w) : Atomic (v + w) := by
  obtain ⟨n, hn⟩ := hv
  obtain ⟨m, hm⟩ := hw
  refine ⟨n + m, ?_⟩
  push_cast
  rw [add_mul, hn, hm]

theorem Atomic.neg {v : ℚ} (hv : Atomic v) : Atomic (-v) := by
  obtain ⟨n, hn⟩ := hv
  refine ⟨-n, ?_⟩
  push_cast
  rw [neg_mul, hn]

/-- Every fixed-point amount is. -/
theorem Fixed.atomic (f : Fixed) : Atomic f.value := by
  obtain ⟨d, hd⟩ := Nat.exists_eq_add_of_le f.scale_le
  refine ⟨f.atoms * 10 ^ d, ?_⟩
  have hne : (10 : ℚ) ^ f.scale ≠ 0 := by positivity
  rw [Fixed.value, hd, pow_add]
  push_cast
  field_simp

theorem truncate_of_atomic {v : ℚ} (hv : Atomic v) : (truncate (v * 10 ^ 18) : ℚ) = v * 10 ^ 18 := by
  obtain ⟨n, hn⟩ := hv
  rw [hn, truncate]
  split <;> simp

theorem assetDelta_make_eq_ok {asset : Asset} {v : ℚ} {d : AssetDelta} (hv : Atomic v)
    (h : AssetDelta.make asset (truncate (v * 10 ^ 18)) = .ok d) :
    d.asset = asset ∧ d.value = v := by
  unfold AssetDelta.make at h
  split at h
  · cases h
  · cases h
    refine ⟨rfl, ?_⟩
    rw [AssetDelta.value, truncate_of_atomic hv]
    field_simp

/-! ## Amounts by asset -/

/-- The total of one asset. -/
def totalOf (amounts : List (Asset × ℚ)) (a : Asset) : ℚ :=
  ((amounts.filter (·.1 = a)).map (·.2)).sum

theorem totalOf_cons (x : Asset × ℚ) (amounts : List (Asset × ℚ)) (a : Asset) :
    totalOf (x :: amounts) a = (if x.1 = a then x.2 else 0) + totalOf amounts a := by
  by_cases h : x.1 = a <;> simp [totalOf, h]

theorem totalOf_append (xs ys : List (Asset × ℚ)) (a : Asset) :
    totalOf (xs ++ ys) a = totalOf xs a + totalOf ys a := by
  simp [totalOf]

theorem totalOf_perm {xs ys : List (Asset × ℚ)} (h : xs.Perm ys) (a : Asset) :
    totalOf xs a = totalOf ys a :=
  ((h.filter _).map _).sum_eq

theorem totalOf_addAmount (amounts : List (Asset × ℚ)) (asset : Asset) (v : ℚ) (a : Asset) :
    totalOf (addAmount amounts asset v) a = totalOf amounts a + if asset = a then v else 0 := by
  induction amounts with
  | nil =>
    rw [addAmount, totalOf_cons]
    simp [totalOf]
  | cons x rest ih =>
    obtain ⟨b, w⟩ := x
    unfold addAmount
    by_cases hb : b = asset
    · subst hb
      rw [if_pos rfl, totalOf_cons, totalOf_cons]
      by_cases ha : b = a
      · simp only [ha, if_true]
        ring
      · simp [ha]
    · rw [if_neg hb, totalOf_cons, totalOf_cons, ih]
      ring

theorem addAmount_assets (amounts : List (Asset × ℚ)) (asset : Asset) (v : ℚ) :
    (addAmount amounts asset v).map (·.1) =
      if asset ∈ amounts.map (·.1) then amounts.map (·.1) else amounts.map (·.1) ++ [asset] := by
  induction amounts with
  | nil => simp [addAmount]
  | cons x rest ih =>
    obtain ⟨b, w⟩ := x
    unfold addAmount
    by_cases hb : b = asset
    · simp [hb]
    · rw [if_neg hb, List.map_cons, ih]
      by_cases hmem : asset ∈ rest.map (·.1) <;> simp [hmem, Ne.symm hb]

theorem addAmount_nodup {amounts : List (Asset × ℚ)} (h : (amounts.map (·.1)).Nodup)
    (asset : Asset) (v : ℚ) : ((addAmount amounts asset v).map (·.1)).Nodup := by
  rw [addAmount_assets]
  split
  · exact h
  · next hmem =>
    refine List.nodup_append.mpr ⟨h, List.nodup_singleton _, fun b hb c hc hbc => ?_⟩
    obtain rfl := List.mem_singleton.mp hc
    exact hmem (hbc ▸ hb)

theorem addAmount_atomic {amounts : List (Asset × ℚ)} (h : ∀ x ∈ amounts, Atomic x.2)
    (asset : Asset) {v : ℚ} (hv : Atomic v) : ∀ x ∈ addAmount amounts asset v, Atomic x.2 := by
  induction amounts with
  | nil => simpa [addAmount] using hv
  | cons y rest ih =>
    obtain ⟨b, w⟩ := y
    have hw : Atomic w := h (b, w) (by simp)
    have hrest : ∀ x ∈ rest, Atomic x.2 := fun x hx => h x (by simp [hx])
    unfold addAmount
    split
    · intro x hx
      rcases List.mem_cons.mp hx with rfl | hx
      · exact hw.add hv
      · exact hrest x hx
    · intro x hx
      rcases List.mem_cons.mp hx with rfl | hx
      · exact hw
      · exact ih hrest x hx

/-- What a list of amounts adds to the totals, and what it keeps of their shape. -/
theorem foldl_addAmount {entries amounts : List (Asset × ℚ)}
    (hnodup : (amounts.map (·.1)).Nodup) (hatomic : ∀ x ∈ amounts, Atomic x.2)
    (hentries : ∀ x ∈ entries, Atomic x.2) :
    let result := entries.foldl (fun amounts x => addAmount amounts x.1 x.2) amounts
    (result.map (·.1)).Nodup ∧ (∀ x ∈ result, Atomic x.2) ∧
      ∀ a, totalOf result a = totalOf amounts a + totalOf entries a := by
  induction entries generalizing amounts with
  | nil => exact ⟨hnodup, hatomic, fun a => by simp [totalOf]⟩
  | cons x entries ih =>
    have hx : Atomic x.2 := hentries x (by simp)
    obtain ⟨hnodup', hatomic', htotal⟩ := ih (addAmount_nodup hnodup x.1 x.2)
      (addAmount_atomic hatomic x.1 hx) fun y hy => hentries y (by simp [hy])
    refine ⟨hnodup', hatomic', fun a => ?_⟩
    rw [List.foldl_cons, htotal, totalOf_addAmount, totalOf_cons]
    ring

/-! ## The deltas of a fill -/

/-- What the fill itself moves of an asset. -/
def grossOf (fill : HypotheticalFill) (a : Asset) : ℚ :=
  totalOf (grossFlow fill) a

/-- The entries in one asset. -/
def entriesOf (entries : List FeeEntry) (a : Asset) : ℚ :=
  ((entries.filter (·.amount.asset = a)).map (·.amount.amount.value)).sum

/-- The deltas in one asset. -/
def deltaOf (ds : List AssetDelta) (a : Asset) : ℚ :=
  ((ds.filter (·.asset = a)).map (·.value)).sum

theorem totalOf_entries (entries : List FeeEntry) (a : Asset) :
    totalOf (entries.map fun c => (c.amount.asset, c.amount.amount.value)) a =
      entriesOf entries a := by
  simp [totalOf, entriesOf, List.filter_map, Function.comp_def]

theorem totalOf_neg_entries (entries : List FeeEntry) (a : Asset) :
    totalOf (entries.map fun c => (c.amount.asset, -c.amount.amount.value)) a =
      -entriesOf entries a := by
  induction entries with
  | nil => simp [totalOf, entriesOf]
  | cons c entries ih =>
    rw [List.map_cons, totalOf_cons, ih]
    by_cases h : c.amount.asset = a
    · simp [entriesOf, h]
      ring
    · simp [entriesOf, h]

/-- The quote and the outcome of an instrument are two assets. -/
theorem quote_ne_outcome (e : InstrumentEconomics) : e.quote ≠ e.outcome := by
  intro h
  exact e.kinds.2 (h ▸ e.kinds.1)

theorem grossFlow_nodup (fill : HypotheticalFill) : ((grossFlow fill).map (·.1)).Nodup := by
  simpa [grossFlow] using quote_ne_outcome fill.economics

theorem grossFlow_atomic (fill : HypotheticalFill) : ∀ x ∈ grossFlow fill, Atomic x.2 := by
  have hnotional := fill.grossNotional.amount.atomic
  have hquantity := fill.quantity.atomic
  intro x hx
  simp only [grossFlow, List.mem_cons, List.not_mem_nil, or_false] at hx
  rcases hx with rfl | rfl <;> by_cases hside : fill.side = .buy
  · simpa [hside] using hnotional.neg
  · simpa [hside] using hnotional
  · simpa [hside] using hquantity
  · simpa [hside] using hquantity.neg

/-- The flows conserve every asset, in whole atoms, each asset once. -/
theorem flows_conserve (fill : HypotheticalFill) (f : Findings) :
    ((flows fill f).map (·.1)).Nodup ∧ (∀ x ∈ flows fill f, Atomic x.2) ∧
      ∀ a, totalOf (flows fill f) a =
        grossOf fill a - entriesOf f.charges a + entriesOf f.rebates a := by
  have hentries : ∀ x ∈ f.charges.map (fun c => (c.amount.asset, -c.amount.amount.value)) ++
      f.rebates.map (fun r => (r.amount.asset, r.amount.amount.value)), Atomic x.2 := by
    intro x hx
    rcases List.mem_append.mp hx with hx | hx
    · obtain ⟨c, _, rfl⟩ := List.mem_map.mp hx
      exact c.amount.amount.atomic.neg
    · obtain ⟨r, _, rfl⟩ := List.mem_map.mp hx
      exact r.amount.amount.atomic
  obtain ⟨hnodup, hatomic, htotal⟩ :=
    foldl_addAmount (grossFlow_nodup fill) (grossFlow_atomic fill) hentries
  refine ⟨hnodup, hatomic, fun a => ?_⟩
  have h := htotal a
  rw [totalOf_append, totalOf_neg_entries, totalOf_entries] at h
  unfold flows grossOf
  rw [h]
  ring

theorem mapM_make {amounts : List (Asset × ℚ)} {ds : List AssetDelta}
    (hatomic : ∀ x ∈ amounts, Atomic x.2)
    (h : amounts.mapM (fun x => AssetDelta.make x.1 (truncate (x.2 * 10 ^ 18))) = .ok ds) :
    ds.map (·.asset) = amounts.map (·.1) ∧ ∀ a, deltaOf ds a = totalOf amounts a := by
  induction amounts generalizing ds with
  | nil =>
    cases h
    exact ⟨rfl, fun a => rfl⟩
  | cons x amounts ih =>
    rw [List.mapM_cons] at h
    obtain ⟨d, hd, h⟩ := Except.bind_eq_ok.mp h
    obtain ⟨rest, hrest, h⟩ := Except.bind_eq_ok.mp h
    cases h
    obtain ⟨hassets, htotals⟩ := ih (fun y hy => hatomic y (by simp [hy])) hrest
    obtain ⟨hasset, hvalue⟩ := assetDelta_make_eq_ok (hatomic x (by simp)) hd
    refine ⟨by simp [hasset, hassets], fun a => ?_⟩
    have hrest' := htotals a
    rw [totalOf_cons]
    by_cases ha : x.1 = a
    · simp only [deltaOf] at hrest' ⊢
      simp [hasset, ha, hvalue, hrest']
    · simp only [deltaOf] at hrest' ⊢
      simp [hasset, ha, hrest']

/-- The deltas conserve every asset and name each once. -/
theorem netDeltas_conserve {ids : Identities} {fill : HypotheticalFill} {f : Findings}
    {ds : List AssetDelta} (h : netDeltas ids fill f = .ok ds) :
    (ds.map (·.asset)).Nodup ∧ ∀ a, deltaOf ds a =
      grossOf fill a - entriesOf f.charges a + entriesOf f.rebates a := by
  obtain ⟨hnodup, hatomic, htotal⟩ := flows_conserve fill f
  have hperm := List.perm_insertionSort (fun a b => ids.asset a.1 ≤ ids.asset b.1) (flows fill f)
  have hsorted : ∀ x ∈ (flows fill f).insertionSort (fun a b => ids.asset a.1 ≤ ids.asset b.1),
      Atomic x.2 := fun x hx => hatomic x (hperm.mem_iff.mp hx)
  obtain ⟨hassets, htotals⟩ := mapM_make hsorted h
  refine ⟨?_, fun a => ?_⟩
  · rw [hassets]
    exact (hperm.map _).nodup_iff.mpr hnodup
  · rw [htotals, totalOf_perm hperm, htotal]

end PredictionIndexer.Fees
