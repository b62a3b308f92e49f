import PredictionIndexer.Replay.EconomicFills

/-!
# One walk for every size

The walk stands at a level with some of it left. Everything else it carries, the amounts taken, the
levels consumed and the cost, is what an order of the filled size gets; so the fill of a size does
not depend on the sizes in front of it.
-/

namespace PredictionIndexer.Replay

open PriceLadder

/-- What `walk` asks of the levels it touches, of every level. -/
def ValidLadder (levels : PriceLadder) : Prop := ∀ level ∈ levels, 0 ≤ level.1 ∧ 0 < level.2

theorem ValidLadder.positive {levels : PriceLadder} (h : ValidLadder levels) : levels.Positive :=
  fun level hmem => (h level hmem).2

theorem level_eq_ok {value : Int × Int} (h : 0 ≤ value.1 ∧ 0 < value.2) :
    level value = .ok value.2 := by
  rw [level, if_neg (by omega)]

namespace Walk

section Stands

/-- Where the walk stands: behind the levels `done`, at one with something left of it, or at the
end. -/
inductive At (levels done : PriceLadder) : Walk → Prop where
  | exhausted {w : Walk} (hlevels : w.levels = []) (hsplit : levels = done)
      (hfilled : w.filled = depth done) : At levels done w
  | within {w : Walk} {price displayed : Int} {rest : PriceLadder}
      (hlevels : w.levels = (price, displayed) :: rest)
      (hsplit : levels = done ++ (price, displayed) :: rest)
      (hremaining : 0 < w.remaining ∧ w.remaining ≤ displayed)
      (hfilled : w.filled = depth done + (displayed - w.remaining)) : At levels done w

/-- The walk carries what an order of the filled size gets. -/
structure Stands (levels : PriceLadder) (w : Walk) : Prop where
  taken_eq : w.taken = levels.taken w.filled
  consumed_eq : w.consumed = levels.touched w.filled
  cost_eq : w.cost = PriceLadder.cost (levels.taken w.filled)
  at_level : ∃ done, At levels done w

variable {levels done rest : PriceLadder} {w : Walk} {price displayed amount target : Int}

/-- An amount more of the current level is an order of that much more. -/
theorem record_eq (hpos : levels.Positive) (h : Stands levels w)
    (hsplit : levels = done ++ (price, displayed) :: rest)
    (hremaining : 0 < w.remaining ∧ w.remaining ≤ displayed)
    (hfilled : w.filled = depth done + (displayed - w.remaining))
    (hamount : 0 < amount ∧ amount ≤ w.remaining) :
    w.record amount price displayed =
        .ok (levels.taken (w.filled + amount), levels.touched (w.filled + amount)) ∧
      PriceLadder.cost (levels.taken (w.filled + amount)) =
        PriceLadder.cost (levels.taken w.filled) + price * amount := by
  have hdone : Positive done := (hsplit ▸ hpos).of_append_left
  -- the order with the new amount ends inside the level
  have hsum : w.filled + amount = depth done + (displayed - w.remaining + amount) := by omega
  have htaken : levels.taken (w.filled + amount) =
      done ++ [(price, displayed - w.remaining + amount)] := by
    rw [hsplit, hsum, taken_within hdone (by omega) (show _ ≤ displayed by omega)]
  have htouched : levels.touched (w.filled + amount) = done ++ [(price, displayed)] := by
    rw [hsplit, hsum, touched_within hdone (by omega) (show _ ≤ displayed by omega)]
  rw [htaken, htouched]
  unfold record
  by_cases hfresh : w.remaining = displayed
  · have hat : w.filled = depth done := by omega
    have htaken' : levels.taken w.filled = done := by rw [hsplit, hat, taken_depth hdone]
    have htouched' : levels.touched w.filled = done := by rw [hsplit, hat, touched_depth hdone]
    rw [if_pos hfresh, h.taken_eq, h.consumed_eq, htaken', htouched', hfresh]
    simp
  · have htaken' : levels.taken w.filled = done ++ [(price, displayed - w.remaining)] := by
      rw [hsplit, hfilled, taken_within hdone (by omega) (show _ ≤ displayed by omega)]
    have htouched' : levels.touched w.filled = done ++ [(price, displayed)] := by
      rw [hsplit, hfilled, touched_within hdone (by omega) (show _ ≤ displayed by omega)]
    rw [if_neg hfresh, h.taken_eq, h.consumed_eq, htaken', htouched']
    constructor
    · simp [addToLast]
    · simp
      ring

/-- Behind a level the walk stands in front of the next one. -/
theorem leave_eq (hvalid : ValidLadder levels) (hsplit : levels = done ++ rest)
    (hfilled : w.filled = depth done) : ∃ remaining,
    w.leave rest = .ok { w with levels := rest, remaining } ∧
      At levels done { w with levels := rest, remaining } := by
  cases rest with
  | nil => exact ⟨w.remaining, rfl, .exhausted rfl (by simpa using hsplit) hfilled⟩
  | cons next rest =>
    have hnext := hvalid next (by simp [hsplit])
    refine ⟨next.2, ?_, .within rfl hsplit ⟨hnext.2, le_rfl⟩ ?_⟩
    · show (do
        let remaining ← level next
        return { w with levels := next :: rest, remaining }) = _
      rw [level_eq_ok hnext]
      rfl
    · show w.filled = depth done + (next.2 - next.2)
      omega

/-- In front of the first size the walk stands at the first level. -/
theorem start_eq (hvalid : ValidLadder levels) :
    ∃ w, start levels = .ok w ∧ Stands levels w ∧ w.filled = 0 := by
  have hnone : levels.taken 0 = [] ∧ levels.touched 0 = [] := by
    simp [PriceLadder.taken, PriceLadder.touched, walked_of_nonpos]
  cases levels with
  | nil => exact ⟨_, rfl, ⟨rfl, rfl, rfl, [], .exhausted rfl rfl rfl⟩, rfl⟩
  | cons first rest =>
    have hfirst := hvalid first List.mem_cons_self
    refine ⟨⟨first :: rest, first.2, 0, 0, [], []⟩, ?_, ⟨hnone.1.symm, hnone.2.symm, ?_, [],
      .within rfl rfl ⟨hfirst.2, le_rfl⟩ ?_⟩, rfl⟩
    · simp only [start, level_eq_ok hfirst]
      rfl
    · show 0 = PriceLadder.cost (PriceLadder.taken (first :: rest) 0)
      rw [hnone.1, cost_nil]
    · show 0 = depth [] + (first.2 - first.2)
      rw [depth_nil]
      omega

/-- A round takes what the level has left, or what the target lacks. -/
theorem round_eq (hvalid : ValidLadder levels) (h : Stands levels w)
    (hlevels : w.levels = (price, displayed) :: rest) (hlt : w.filled < target) :
    ∃ w', w.round target price displayed rest = .ok w' ∧ Stands levels w' ∧
      w'.filled = w.filled + min w.remaining (target - w.filled) ∧
      (w'.levels = rest ∨ w'.filled = target) := by
  obtain ⟨done, hat⟩ := h.at_level
  cases hat with
  | exhausted hnil => exact absurd (hlevels.symm.trans hnil) (List.cons_ne_nil _ _)
  | within hlevels' hsplit hremaining hfilled =>
    rw [hlevels] at hlevels'
    cases hlevels'
    obtain ⟨amount, hamount⟩ : ∃ amount, amount = min w.remaining (target - w.filled) := ⟨_, rfl⟩
    have hstep : 0 < amount ∧ amount ≤ w.remaining := by omega
    obtain ⟨hrecord, hcost⟩ := record_eq hvalid.positive h hsplit hremaining hfilled hstep
    unfold round
    rw [← hamount]
    simp only [hrecord, Except.ok_bind]
    by_cases hzero : w.remaining - amount = 0
    · -- the level is gone
      have hsplit' : levels = (done ++ [(price, displayed)]) ++ rest := by simp [hsplit]
      have hfilled' : w.filled + amount = depth (done ++ [(price, displayed)]) := by
        simp only [depth_append, depth_cons, depth_nil]
        omega
      obtain ⟨remaining, hleave, hat⟩ := leave_eq
        (w := ⟨w.levels, w.remaining - amount, w.filled + amount, w.cost + price * amount,
          levels.taken (w.filled + amount), levels.touched (w.filled + amount)⟩)
        hvalid hsplit' hfilled'
      rw [if_pos hzero, hleave]
      exact ⟨_, rfl, ⟨rfl, rfl, by rw [h.cost_eq, hcost], _, hat⟩, rfl, .inl rfl⟩
    · -- the target ends inside the level
      rw [if_neg hzero]
      refine ⟨_, rfl, ⟨rfl, rfl, by rw [h.cost_eq, hcost], _, .within hlevels hsplit ?_ ?_⟩, rfl,
        .inr ?_⟩
      · show 0 < w.remaining - amount ∧ w.remaining - amount ≤ displayed
        omega
      · show w.filled + amount = depth done + (displayed - (w.remaining - amount))
        omega
      · show w.filled + amount = target
        omega

theorem Stands.filled_le (hpos : levels.Positive) (h : Stands levels w) :
    w.filled ≤ depth levels := by
  obtain ⟨done, hat⟩ := h.at_level
  cases hat with
  | exhausted _ hsplit hfilled => rw [hfilled, hsplit]
  | within _ hsplit hremaining hfilled =>
    have hbehind := (hsplit ▸ hpos).of_append_right.of_cons.depth_nonneg
    rw [hsplit, depth_append, depth_cons, hfilled]
    show _ ≤ depth done + (_ + _)
    omega

theorem fillTo_of_le (h : target ≤ w.filled) : w.fillTo target = .ok w := by
  unfold fillTo
  split
  · rfl
  · rw [dif_neg (by omega)]

/-- The loop of one target fills the target, or all there is. -/
theorem fillTo_eq (hvalid : ValidLadder levels) (h : Stands levels w) (hle : w.filled ≤ target) :
    ∃ w', w.fillTo target = .ok w' ∧ Stands levels w' ∧ w'.filled = min target (depth levels) := by
  induction hrest : w.levels generalizing w with
  | nil =>
    obtain ⟨done, hat⟩ := h.at_level
    have hfilled : w.filled = depth levels := by
      cases hat with
      | exhausted _ hsplit hfilled => rw [hfilled, hsplit]
      | within hlevels => exact absurd (hrest.symm.trans hlevels) (List.cons_ne_nil _ _).symm
    refine ⟨w, ?_, h, by omega⟩
    unfold fillTo
    split
    · rfl
    next hlevels => exact absurd (hrest.symm.trans hlevels) (List.cons_ne_nil _ _).symm
  | cons value rest ih =>
    obtain ⟨price, displayed⟩ := value
    obtain ⟨done, hat⟩ := h.at_level
    by_cases hlt : w.filled < target
    · obtain ⟨w', hround, hstands, hfilled, hnext⟩ := round_eq hvalid h hrest hlt
      have hstep : w.fillTo target = w'.fillTo target := by
        rw [fillTo]
        split
        next hlevels => exact absurd (hrest.symm.trans hlevels) (List.cons_ne_nil _ _)
        next hlevels =>
          rw [hrest] at hlevels
          cases hlevels
          rw [dif_pos hlt]
          split
          next hround' =>
            rw [hround] at hround'
            cases hround'
            rfl
          next hround' =>
            rw [hround] at hround'
            cases hround'
      rw [hstep]
      cases hnext with
      | inl hlevels => exact ih hstands (by omega) hlevels
      | inr htarget =>
        have hle' := hstands.filled_le hvalid.positive
        exact ⟨w', fillTo_of_le (by omega), hstands, by omega⟩
    · have hle' := h.filled_le hvalid.positive
      exact ⟨w, fillTo_of_le (by omega), h, by omega⟩

end Stands

end Walk

/-- The fill of a size on its own. -/
def fillOf (levels : PriceLadder) (size : Int) : Fill where
  filledAtoms := min size (depth levels)
  cost := PriceLadder.cost (levels.taken size)
  depthLimited := depth levels < size
  taken := levels.taken size
  consumed := levels.touched size

section Walk

variable {levels : PriceLadder} {sizes : List Int} {size unit : Int}

theorem touched_min (hpos : levels.Positive) (size : Int) :
    levels.taken (min size (depth levels)) = levels.taken size ∧
      levels.touched (min size (depth levels)) = levels.touched size := by
  unfold PriceLadder.taken PriceLadder.touched
  rw [walked_min hpos]
  exact ⟨rfl, rfl⟩

/-- In front of ascending sizes the loop gives each its own fill. -/
theorem fills_eq (hvalid : ValidLadder levels) {w : Walk} (h : w.Stands levels)
    (hle : ∀ size ∈ sizes, w.filled ≤ size) (hsorted : sizes.Pairwise (· < ·)) :
    w.fills sizes = .ok (sizes.map (fillOf levels)) := by
  induction sizes generalizing w with
  | nil => rfl
  | cons size sizes ih =>
    obtain ⟨hlt, hsorted⟩ := List.pairwise_cons.mp hsorted
    obtain ⟨w', hfill, hstands, hfilled⟩ := Walk.fillTo_eq hvalid h (hle size List.mem_cons_self)
    have hrest := ih hstands (fun next hnext => by have := hlt next hnext; omega) hsorted
    obtain ⟨htaken, htouched⟩ := touched_min hvalid.positive size
    have hresult : w'.fill size = fillOf levels size := by
      unfold Walk.fill fillOf
      rw [hstands.taken_eq, hstands.consumed_eq, hstands.cost_eq, hfilled, htaken, htouched]
      simp
    unfold Walk.fills
    rw [hfill, Except.ok_bind, hrest, hresult]
    rfl

/-- The sizes `walk` accepts. -/
structure ValidSizes (sizes : List Int) : Prop where
  nonempty : sizes ≠ []
  positive : ∀ size ∈ sizes, 0 < size
  sorted : sizes.Pairwise (· < ·)

instance (sizes : List Int) : Decidable (ValidSizes sizes) :=
  decidable_of_iff (sizes ≠ [] ∧ (∀ size ∈ sizes, 0 < size) ∧ sizes.Pairwise (· < ·))
    ⟨fun ⟨hne, hpos, hsorted⟩ => ⟨hne, hpos, hsorted⟩, fun ⟨hne, hpos, hsorted⟩ =>
      ⟨hne, hpos, hsorted⟩⟩

theorem ValidSizes.singleton (h : 0 < size) : ValidSizes [size] where
  nonempty := List.cons_ne_nil size []
  positive := by simpa using h
  sorted := List.pairwise_singleton _ size

theorem walk_eq (hvalid : ValidLadder levels) (hsizes : ValidSizes sizes) :
    walk levels sizes = .ok (sizes.map (fillOf levels)) := by
  have hbad : ¬(sizes = [] ∨ ∃ size ∈ sizes, size ≤ 0) := by
    rintro (hnil | ⟨size, hmem, hle⟩)
    · exact hsizes.nonempty hnil
    · have := hsizes.positive size hmem
      omega
  obtain ⟨w, hstart, hstands, hfilled⟩ := Walk.start_eq hvalid
  rw [walk, if_neg hbad, if_neg (not_not.mpr (List.eq_sortedSet_iff.mpr hsizes.sorted)), hstart,
    Except.ok_bind]
  apply fills_eq hvalid hstands ?_ hsizes.sorted
  intro size hmem
  have := hsizes.positive size hmem
  omega

/-- What a fill of a size on a ladder is. -/
structure IsFill (levels : PriceLadder) (size : Int) (fill : Fill) : Prop where
  filled : fill.filledAtoms = min size (depth levels)
  cost : fill.cost = PriceLadder.cost fill.taken
  limited : fill.depthLimited = true ↔ depth levels < size
  sum : depth fill.taken = fill.filledAtoms
  /-- The consumed levels are those in front of which there is too little, as displayed. -/
  touched : fill.consumed <+: levels ∧
    ∀ k, k < fill.consumed.length ↔ k < levels.length ∧ depth (levels.take k) < size
  /-- An entry for each of them, of all its quantity or of what is left of the size. -/
  entries : ∀ k : Nat, fill.taken[k]? =
    fill.consumed[k]?.map fun level => (level.1, min level.2 (size - depth (levels.take k)))

theorem isFill_fillOf (hvalid : ValidLadder levels) (hsize : 0 < size) :
    IsFill levels size (fillOf levels size) where
  filled := rfl
  cost := rfl
  limited := decide_eq_true_iff
  sum := depth_taken hvalid.positive hsize.le
  touched := by
    refine ⟨touched_isPrefix, fun k => ?_⟩
    rw [← lt_length_walked hvalid.positive]
    simp [fillOf, PriceLadder.touched]
  entries := by
    intro k
    show ((walked levels size).map _)[k]? = (((walked levels size).map Prod.fst)[k]?).map _
    rw [List.getElem?_map, List.getElem?_map]
    by_cases hk : k < (walked levels size).length
    · have hk' := ((lt_length_walked hvalid.positive).mp hk).1
      rw [List.getElem?_eq_getElem hk, walked_getElem hk hk']
      rfl
    · rw [List.getElem?_eq_none (by omega)]
      rfl

theorem validLadder_complement (hvalid : ValidLadder levels)
    (hunit : ∀ level ∈ levels, level.1 ≤ unit) : ValidLadder (complementLadder levels unit) := by
  intro level hmem
  obtain ⟨source, hsource, rfl⟩ := List.mem_map.mp hmem
  have hvalid := hvalid source hsource
  have hunit := hunit source hsource
  exact ⟨by omega, hvalid.2⟩

/-- What the opposite side pays for an amount and what this one pays make a unit each. -/
theorem cost_complement (l : PriceLadder) :
    PriceLadder.cost (l.map fun level => (unit - level.1, level.2)) =
      unit * depth l - PriceLadder.cost l := by
  induction l with
  | nil => simp
  | cons level l ih =>
    rw [List.map_cons, cost_cons, cost_cons, depth_cons, ih]
    ring

/-- The projection of a fill is the fill of the projected ladder. -/
theorem fillOf_complement (hvalid : ValidLadder levels) (hsize : 0 < size) :
    fillOf (complementLadder levels unit) size = complementAsk (fillOf levels size) unit := by
  have hdepth : depth (complementLadder levels unit) = depth levels := by
    simp [complementLadder, depth, Function.comp_def]
  have hwalked := walked_map levels size fun price => unit - price
  have htaken : (complementLadder levels unit).taken size =
      (levels.taken size).map fun level => (unit - level.1, level.2) := by
    unfold PriceLadder.taken complementLadder
    rw [hwalked, List.map_map, List.map_map]
    rfl
  have htouched : (complementLadder levels unit).touched size =
      (levels.touched size).map fun level => (unit - level.1, level.2) := by
    unfold PriceLadder.touched complementLadder
    rw [hwalked, List.map_map, List.map_map]
    rfl
  unfold fillOf complementAsk
  rw [hdepth, htaken, htouched, cost_complement, depth_taken hvalid.positive hsize.le]

end Walk

/-- One pass over a ladder gives each size the fill a walk of its own gives it, and a fill turned to
the opposite orientation is that of the turned ladder. -/
theorem walk_eq_single_walks {levels : PriceLadder} {sizes : List Int} (hvalid : ValidLadder levels)
    (hsizes : ValidSizes sizes) :
    ∃ fills, walk levels sizes = .ok fills ∧
      List.Forall₂ (fun size fill => walk levels [size] = .ok [fill] ∧ IsFill levels size fill)
        sizes fills ∧
      ∀ unit, (∀ level ∈ levels, level.1 ≤ unit) →
        walk (complementLadder levels unit) sizes =
          .ok (fills.map fun fill => complementAsk fill unit) := by
  refine ⟨sizes.map (fillOf levels), walk_eq hvalid hsizes, ?_, ?_⟩
  · rw [List.forall₂_map_right_iff, List.forall₂_same]
    intro size hmem
    have hsize := hsizes.positive size hmem
    exact ⟨walk_eq hvalid (.singleton hsize), isFill_fillOf hvalid hsize⟩
  · intro unit hunit
    rw [walk_eq (validLadder_complement hvalid hunit) hsizes, List.map_map]
    apply congrArg Except.ok
    apply List.map_congr_left
    intro size hmem
    exact fillOf_complement hvalid (hsizes.positive size hmem)

/-- Three sizes on two levels, the last beyond the depth. -/
theorem walk_eq_single_walks_two_levels :
    ∃ fills, walk [(40, 5), (50, 10)] [3, 8, 20] = .ok fills ∧
      List.Forall₂ (fun size fill => walk [(40, 5), (50, 10)] [size] = .ok [fill] ∧
        IsFill [(40, 5), (50, 10)] size fill) [3, 8, 20] fills ∧
      ∀ unit, (∀ level ∈ [((40 : Int), (5 : Int)), (50, 10)], level.1 ≤ unit) →
        walk (complementLadder [(40, 5), (50, 10)] unit) [3, 8, 20] =
          .ok (fills.map fun fill => complementAsk fill unit) :=
  walk_eq_single_walks (by unfold ValidLadder; decide) (by decide)

end PredictionIndexer.Replay
