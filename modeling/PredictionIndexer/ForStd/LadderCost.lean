import PredictionIndexer.ForStd.Ladder

/-!
# The best atoms of a ladder

What an order takes of a ladder with ascending prices costs no more than any other choice of as many
atoms, and on descending prices it brings no less.
-/

namespace PriceLadder

/-- Some of the quantity of every level. -/
def IsChoice (l other : PriceLadder) : Prop :=
  List.Forall₂ (fun level part => part.1 = level.1 ∧ 0 ≤ part.2 ∧ part.2 ≤ level.2) l other

section Choice

variable {l other : PriceLadder} {size x y p : Int}

theorem mul_depth_le_cost (h : IsChoice l other) (hp : ∀ level ∈ l, p ≤ level.1) :
    p * depth other ≤ cost other := by
  induction h with
  | nil => simp
  | @cons level part l other hpart _ ih =>
    obtain ⟨hprice, hnonneg, -⟩ := hpart
    have hrest := ih fun level hmem => hp level (List.mem_cons_of_mem _ hmem)
    have hfirst : p * part.2 ≤ part.1 * part.2 :=
      mul_le_mul_of_nonneg_right (hprice ▸ hp level List.mem_cons_self) hnonneg
    rw [depth_cons, cost_cons, mul_add]
    omega

theorem IsChoice.depth_mem (h : IsChoice l other) : 0 ≤ depth other ∧ depth other ≤ depth l := by
  induction h with
  | nil => simp
  | cons hpart _ ih =>
    obtain ⟨-, hnonneg, hle⟩ := hpart
    rw [depth_cons, depth_cons]
    omega

/-- A larger order costs as much more as its further atoms, at the lowest price at least. -/
theorem cost_taken_add_le (hpos : Positive l) (hp : ∀ level ∈ l, p ≤ level.1) (hx : 0 ≤ x)
    (hxy : x ≤ y) (hy : y ≤ depth l) : cost (taken l x) + p * (y - x) ≤ cost (taken l y) := by
  induction l generalizing x y with
  | nil =>
    rw [depth_nil] at hy
    have : y = x := by omega
    simp [this, taken, walked]
  | cons level l ih =>
    have hlevel := hpos level List.mem_cons_self
    have hprice := hp level List.mem_cons_self
    have hrest := @ih
    rw [depth_cons] at hy
    by_cases hfirst : y ≤ level.2
    · -- both end in the first level
      have htaken (z : Int) (hz : 0 ≤ z) (hle : z ≤ level.2) :
          cost (taken (level :: l) z) = level.1 * z := by
        rcases hz.eq_or_lt with rfl | hz
        · simp [taken, walked]
        · simp [taken, walked_cons_of_le hz hle]
      rw [htaken x hx (by omega), htaken y (by omega) hfirst]
      have := mul_le_mul_of_nonneg_right hprice (show 0 ≤ y - x by omega)
      rw [mul_sub] at this ⊢
      rw [mul_sub] at this
      omega
    · have hrec (z : Int) (hz : 0 < z) (hle : level.2 ≤ z) :
          cost (taken (level :: l) z) = level.1 * level.2 + cost (taken l (z - level.2)) := by
        rw [taken, walked, if_pos hz, List.map_cons, cost_cons, min_eq_left hle]
        rfl
      have htail : ∀ level ∈ l, p ≤ level.1 := fun level hmem => hp level (List.mem_cons_of_mem _ hmem)
      rw [hrec y (by omega) (by omega)]
      by_cases hin : x ≤ level.2
      · have hzero : cost (taken l 0) = 0 := by simp [taken, walked_of_nonpos]
        have hmore := hrest hpos.of_cons htail le_rfl (show 0 ≤ y - level.2 by omega) (by omega)
        have hx' : cost (taken (level :: l) x) = level.1 * x := by
          rcases hx.eq_or_lt with rfl | hx
          · simp [taken, walked]
          · simp [taken, walked_cons_of_le hx hin]
        have hpart := mul_le_mul_of_nonneg_right hprice (show 0 ≤ level.2 - x by omega)
        rw [hx']
        rw [hzero] at hmore
        have h₁ : p * (y - x) = p * (y - level.2 - 0) + p * (level.2 - x) := by ring
        have h₂ : level.1 * (level.2 - x) = level.1 * level.2 - level.1 * x := by ring
        omega
      · rw [hrec x (by omega) (by omega)]
        have hmore := hrest hpos.of_cons htail (show 0 ≤ x - level.2 by omega)
          (show x - level.2 ≤ y - level.2 by omega) (by omega)
        rw [show y - level.2 - (x - level.2) = y - x by omega] at hmore
        omega

/-- No other choice of as many atoms is cheaper. -/
theorem cost_taken_le (hpos : Positive l) (hsorted : l.Pairwise (·.1 ≤ ·.1)) (h : IsChoice l other)
    (hsize : depth other = size) : cost (taken l size) ≤ cost other := by
  induction h generalizing size with
  | nil =>
    rw [depth_nil] at hsize
    simp [taken, walked]
  | @cons level part l other hpart hrest ih =>
    obtain ⟨hprice, hnonneg, hle⟩ := hpart
    obtain ⟨hfirst, hsorted⟩ := List.pairwise_cons.mp hsorted
    have hl := hpos.of_cons
    have hdepth := IsChoice.depth_mem hrest
    rw [depth_cons] at hsize
    have hlow := ih hl hsorted rfl
    rw [cost_cons, hprice]
    by_cases hin : size ≤ level.2
    · have hbound := mul_depth_le_cost hrest hfirst
      have htaken : cost (taken (level :: l) size) = level.1 * size := by
        rcases (show 0 ≤ size by omega).eq_or_lt with rfl | hsize
        · simp [taken, walked]
        · simp [taken, walked_cons_of_le hsize hin]
      rw [htaken, ← hsize, mul_add]
      omega
    · have htaken : cost (taken (level :: l) size) =
          level.1 * level.2 + cost (taken l (size - level.2)) := by
        rw [taken, walked, if_pos (by omega), List.map_cons, cost_cons, min_eq_left (by omega)]
        rfl
      have hmore := cost_taken_add_le hl hfirst (show 0 ≤ size - level.2 by omega)
        (show size - level.2 ≤ depth other by omega) hdepth.2
      have hgap : level.1 * (depth other - (size - level.2)) = level.1 * level.2 - level.1 * part.2 := by
        rw [show depth other - (size - level.2) = level.2 - part.2 by omega, mul_sub]
      rw [htaken]
      omega

theorem cost_neg (l : PriceLadder) : cost (l.map fun level => (-level.1, level.2)) = -cost l := by
  induction l with
  | nil => rfl
  | cons level l ih =>
    rw [List.map_cons, cost_cons, cost_cons, ih]
    ring

/-- On descending prices no other choice of as many atoms brings more. -/
theorem le_cost_taken (hpos : Positive l) (hsorted : l.Pairwise (·.1 ≥ ·.1)) (h : IsChoice l other)
    (hsize : depth other = size) : cost other ≤ cost (taken l size) := by
  have hneg : taken (l.map fun level => (-level.1, level.2)) size =
      (taken l size).map fun level => (-level.1, level.2) := by
    rw [taken, walked_map, taken, List.map_map, List.map_map]
    rfl
  have hchoice : IsChoice (l.map fun level => (-level.1, level.2))
      (other.map fun level => (-level.1, level.2)) := by
    unfold IsChoice at h ⊢
    rw [List.forall₂_map_left_iff, List.forall₂_map_right_iff]
    refine h.imp fun level part hpart => ⟨?_, hpart.2⟩
    show -part.1 = -level.1
    rw [hpart.1]
  have hdepth : depth (other.map fun level => (-level.1, level.2)) = size := by
    rw [← hsize]
    simp [depth, Function.comp_def]
  have hpositive : Positive (l.map fun level => (-level.1, level.2)) := by
    intro level hmem
    obtain ⟨entry, hentry, rfl⟩ := List.mem_map.mp hmem
    exact hpos entry hentry
  have hlow := cost_taken_le hpositive
    (List.pairwise_map.mpr (hsorted.imp fun hge => neg_le_neg hge)) hchoice hdepth
  rw [hneg, cost_neg, cost_neg] at hlow
  omega

end Choice

end PriceLadder
