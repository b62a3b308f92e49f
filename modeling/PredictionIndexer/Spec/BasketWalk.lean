import PredictionIndexer.ForStd.ConcaveInt
import PredictionIndexer.ForStd.LadderCost
import PredictionIndexer.Replay.BasketFills
import PredictionIndexer.Spec.LadderWalk

/-!
# The basket walk and its edge

Every priced step count is within the limit, so that every leg is filled from the levels of its cap.
The edge loop stays in front of its next candidate; where it stops at the edge it has looked at the
very next step. A value that is straight between boundaries never makes it climb, and bends at
candidates only.
-/

namespace PredictionIndexer.Replay

open Fallible PriceLadder

/-! ## The edge loop -/

/-- Where the edge loop ends: at the limit, at the edge or at an unknown value. -/
structure EdgeEnd (legs : Int → List Fill) (worth : Int → Option Int) (limit : Int)
    (exhausted : FillStop) (best : Best) : Prop where
  range : 0 ≤ best.steps ∧ best.steps ≤ limit
  legs_eq : best.legs = legs best.steps
  value_eq : best.value = worth best.steps
  stops : best.stop = .edge ∧ best.steps + 1 ≤ limit ∧
        (∃ here next, worth best.steps = some here ∧ worth (best.steps + 1) = some next ∧ next ≤ here) ∨
      best.stop = exhausted ∧ best.steps = limit ∨
      best.stop = .valueUnknown ∧ 0 < best.steps ∧ worth best.steps = none

section EdgeLoop

variable {at_ : Int → Except Raised (List Fill × Option Int)} {legs : Int → List Fill}
  {worth : Int → Option Int} {limit : Int} {exhausted : FillStop}

/-- The loop ends, and soundly; it stays in front of its next candidate, the last of which is the
    limit. -/
theorem edgeLoop_end {ordered : List Int} {best bestValue : Int}
    (hat : ∀ s, 0 < s → s ≤ limit → at_ s = .ok (legs s, worth s))
    (hsorted : ordered.Pairwise (· < ·)) (hin : ∀ c ∈ ordered, best < c ∧ c ≤ limit)
    (hlast : best = limit ∨ limit ∈ ordered) (hbest : 0 ≤ best)
    (hvalue : worth best = some bestValue) :
    ∃ result, edgeLoop at_ exhausted ordered best bestValue (legs best) = .ok result ∧
      EdgeEnd legs worth limit exhausted result := by
  match ordered with
  | [] =>
    have hend : best = limit := hlast.resolve_right List.not_mem_nil
    exact ⟨_, by rw [edgeLoop], ⟨hbest, hend.le⟩, rfl, hvalue.symm, .inr (.inl ⟨rfl, hend⟩)⟩
  | candidate :: ordered =>
    obtain ⟨hlt, hle⟩ := hin candidate List.mem_cons_self
    rw [edgeLoop, hat candidate (by omega) hle, Except.ok_bind]
    cases hcandidate : worth candidate with
    | none =>
      exact ⟨_, rfl, ⟨by show 0 ≤ candidate; omega, hle⟩, rfl, hcandidate.symm,
        .inr (.inr ⟨rfl, by show 0 < candidate; omega, hcandidate⟩)⟩
    | some value =>
      simp only
      split_ifs with hclimb hworse
      · -- the step right after the best
        have hstep : best + 1 ≤ limit := by omega
        rw [hat (best + 1) (by omega) hstep, Except.ok_bind]
        cases hnext : worth (best + 1) with
        | none =>
          exact ⟨_, rfl, ⟨by show 0 ≤ best + 1; omega, hstep⟩, rfl, hnext.symm,
            .inr (.inr ⟨rfl, by show 0 < best + 1; omega, hnext⟩)⟩
        | some next =>
          simp only
          split_ifs with hup
          · refine edgeLoop_end hat hsorted (fun c hc => ?_) (.inr ?_) (by omega) hnext
            · rcases List.mem_cons.mp hc with rfl | hc
              · exact ⟨hclimb.2, hle⟩
              · have hmore := (List.pairwise_cons.mp hsorted).1 c hc
                exact ⟨by omega, (hin c (List.mem_cons_of_mem _ hc)).2⟩
            · exact hlast.resolve_left (by omega)
          · exact ⟨_, rfl, ⟨hbest, by show best ≤ limit; omega⟩, rfl, hvalue.symm,
              .inl ⟨rfl, hstep, bestValue, next, hvalue, hnext, not_lt.mp hup⟩⟩
      · -- the candidate is the step right after the best
        have hnext : best + 1 = candidate := by
          have := not_and.mp hclimb hworse
          omega
        exact ⟨_, rfl, ⟨hbest, by show best ≤ limit; omega⟩, rfl, hvalue.symm,
          .inl ⟨rfl, by show best + 1 ≤ limit; omega, bestValue, value, hvalue,
            hnext ▸ hcandidate, hworse⟩⟩
      · obtain ⟨hmore, hsorted⟩ := List.pairwise_cons.mp hsorted
        refine edgeLoop_end hat hsorted (fun c hc => ?_) ?_ (by omega) hcandidate
        · exact ⟨hmore c hc, (hin c (List.mem_cons_of_mem _ hc)).2⟩
        · rcases hlast with heq | hmem
          · omega
          · exact (List.mem_cons.mp hmem).imp_left Eq.symm
termination_by (ordered.length, (ordered.headD 0 - best).toNat)
decreasing_by
  · right
    simp only [List.headD_cons]
    omega
  · left
    simp

/-- Under a concave value that is straight in front of every candidate the loop ends at the first
    maximum. -/
theorem edgeLoop_max {ordered : List Int} {best : Int} {v : Int → Int} {bestLegs : List Fill} {result : Best}
    (hat : ∀ s, 0 < s → s ≤ limit → at_ s = .ok (legs s, some (v s)))
    (hchain : (best :: ordered).IsChain fun a b => a < b ∧ StraightBetween v a b)
    (hin : ∀ c ∈ ordered, c ≤ limit) (hlast : best = limit ∨ limit ∈ ordered) (hbest : 0 ≤ best)
    (hle : best ≤ limit) (hconcave : ConcaveBetween v 0 limit)
    (hbelow : ∀ s, 0 ≤ s → s < best → v s < v best)
    (h : edgeLoop at_ exhausted ordered best (v best) bestLegs = .ok result) :
    (∀ s, 0 ≤ s → s ≤ limit → v s ≤ v result.steps) ∧
      ∀ s, 0 ≤ s → s < result.steps → v s < v result.steps := by
  induction ordered generalizing best bestLegs with
  | nil =>
    have hend : best = limit := hlast.resolve_right List.not_mem_nil
    rw [edgeLoop] at h
    cases h
    refine ⟨fun s hs hs' => ?_, hbelow⟩
    show v s ≤ v best
    rcases (show s ≤ best by omega).lt_or_eq with hlt | rfl
    · exact (hbelow s hs hlt).le
    · exact le_rfl
  | cons candidate ordered ih =>
    obtain ⟨⟨hlt, hstraight⟩, hrest⟩ := List.isChain_cons_cons.mp hchain
    have hcandidate := hin candidate List.mem_cons_self
    rw [edgeLoop, hat candidate (by omega) hcandidate, Except.ok_bind] at h
    simp only at h
    -- where the candidate is not worth more, neither is the very next step nor any other
    have hstop (hworse : v candidate ≤ v best) : v (best + 1) ≤ v best ∧
        ∀ s, 0 ≤ s → s ≤ limit → v s ≤ v best := by
      have hnext := hstraight.succ_le_of_le hlt hworse
      refine ⟨hnext, fun s hs hs' => ?_⟩
      by_cases hs'' : s < best
      · exact (hbelow s hs hs'').le
      · exact (hconcave.mono hbest le_rfl).le_of_succ_le hnext (not_lt.mp hs'') hs'
    split_ifs at h with hclimb hworse
    · obtain ⟨hnext, hmax⟩ := hstop hclimb.1
      rw [hat (best + 1) (by omega) (by omega), Except.ok_bind] at h
      simp only [if_neg (not_lt.mpr hnext)] at h
      cases h
      exact ⟨hmax, hbelow⟩
    · cases h
      exact ⟨(hstop hworse).2, hbelow⟩
    · have hup : v best < v candidate := not_le.mp hworse
      refine ih hrest (fun c hc => hin c (List.mem_cons_of_mem _ hc)) ?_ (by omega) hcandidate ?_ h
      · rcases hlast with heq | hmem
        · omega
        · exact (List.mem_cons.mp hmem).imp_left Eq.symm
      · intro s hs hs'
        by_cases hs'' : s < best
        · exact (hbelow s hs hs'').trans hup
        · exact hstraight.lt_of_lt hup (not_lt.mp hs'') hs'

end EdgeLoop

/-! ## Limits -/

/-- Every leg has the atoms of that many steps within its cap. -/
def Allows (maxLevels : Option Int) (basket : List BasketLeg) (steps : Int) : Prop :=
  ∀ leg ∈ basket, steps * leg.2 ≤ depth (usable maxLevels leg.1)

/-- What the levels and units of a basket are. -/
def ValidBasket (basket : List BasketLeg) : Prop :=
  basket ≠ [] ∧ ∀ leg ∈ basket, ValidLadder leg.1 ∧ 0 < leg.2

/-- The fills of some steps. -/
def legsOf (basket : List BasketLeg) (steps : Int) : List Fill :=
  basket.map fun leg => fillOf leg.1 (steps * leg.2)

section Limits

variable {basket : List BasketLeg} {maxLevels : Option Int} {steps : Int} {ladder : PriceLadder}

theorem le_least_iff {l : List Int} (h : l ≠ []) {a : Int} : a ≤ least l ↔ ∀ b ∈ l, a ≤ b := by
  cases l with
  | nil => exact absurd rfl h
  | cons b l =>
    show a ≤ l.foldl min b ↔ _
    induction l generalizing b with
    | nil => simp
    | cons c l ih =>
      rw [List.foldl_cons, ih _ (List.cons_ne_nil _ _)]
      simp only [List.forall_mem_cons, le_min_iff]
      tauto

theorem le_stepLimit_iff (h : ValidBasket basket) :
    steps ≤ stepLimit maxLevels basket ↔ Allows maxLevels basket steps := by
  rw [stepLimit, le_least_iff (by simpa using h.1), List.forall_mem_map]
  refine forall₂_congr fun leg hleg => ?_
  exact Int.le_ediv_iff_mul_le (h.2 leg hleg).2

theorem validLadder_usable (h : ValidLadder ladder) : ValidLadder (usable maxLevels ladder) := by
  cases maxLevels with
  | none => exact h
  | some levels => exact fun level hmem => h level (List.mem_of_mem_take hmem)

theorem stepLimit_nonneg (h : ValidBasket basket) : 0 ≤ stepLimit maxLevels basket := by
  rw [le_stepLimit_iff h]
  intro leg hleg
  rw [zero_mul]
  exact (validLadder_usable (h.2 leg hleg).1).positive.depth_nonneg

theorem usable_isPrefix : usable maxLevels ladder <+: ladder := by
  cases maxLevels with
  | none => exact List.prefix_refl _
  | some levels => exact List.take_prefix _ _

theorem depth_usable_le (h : ValidLadder ladder) :
    depth (usable maxLevels ladder) ≤ depth ladder := by
  obtain ⟨rest, hrest⟩ := @usable_isPrefix maxLevels ladder
  have hpos := h.positive
  rw [← hrest] at hpos
  have hdepth := congrArg depth hrest
  rw [depth_append] at hdepth
  have := hpos.of_append_right.depth_nonneg
  omega

theorem fillOf_zero (h : ValidLadder ladder) : fillOf ladder 0 = emptyFill := by
  have hdepth := h.positive.depth_nonneg
  simp [fillOf, emptyFill, PriceLadder.taken, PriceLadder.touched, walked_of_nonpos, hdepth]

theorem mapM_eq_map {α β : Type} {f : α → Except Raised β} {g : α → β} {l : List α}
    (h : ∀ a ∈ l, f a = .ok (g a)) : l.mapM f = .ok (l.map g) := by
  rw [Except.mapM_eq_ok_iff, List.forall₂_map_right_iff, List.forall₂_same]
  exact h

theorem legsAt_eq (h : ValidBasket basket) (hsteps : 0 ≤ steps) :
    legsAt basket steps = .ok (legsOf basket steps) := by
  unfold legsAt legsOf
  split_ifs with hzero
  · rw [hzero]
    refine congrArg _ (List.map_congr_left fun leg hleg => ?_)
    rw [zero_mul, fillOf_zero (h.2 leg hleg).1]
  · refine mapM_eq_map fun leg hleg => ?_
    obtain ⟨hladder, hunit⟩ := h.2 leg hleg
    have hsize : 0 < steps * leg.2 := mul_pos (by omega) hunit
    rw [walk_eq hladder (.singleton hsize), Except.ok_bind]
    rfl

/-- A fill of a leg takes the best atoms, from the levels of the cap. -/
structure LegExact (maxLevels : Option Int) (ladder : PriceLadder) (size : Int) (fill : Fill) :
    Prop where
  filled : fill.filledAtoms = size ∧ fill.depthLimited = false
  cost : fill.cost = PriceLadder.cost fill.taken ∧ depth fill.taken = size
  touched : fill.consumed <+: usable maxLevels ladder
  capped : ∀ levels, maxLevels = some levels → fill.consumed.length ≤ levels.toNat
  cheapest : ladder.Pairwise (·.1 ≤ ·.1) →
    ∀ other, IsChoice ladder other → depth other = size → fill.cost ≤ PriceLadder.cost other
  dearest : ladder.Pairwise (·.1 ≥ ·.1) →
    ∀ other, IsChoice ladder other → depth other = size → PriceLadder.cost other ≤ fill.cost

theorem touched_usable {size : Int} (h : ValidLadder ladder)
    (hsize : size ≤ depth (usable maxLevels ladder)) :
    ladder.touched size <+: usable maxLevels ladder := by
  refine List.prefix_of_prefix_length_le touched_isPrefix usable_isPrefix ?_
  -- the level behind the cap is touched by larger sizes only
  by_contra hlong
  have hlength : (ladder.touched size).length = (walked ladder size).length := List.length_map _
  have hbehind := ((lt_length_walked h.positive).mp (by omega :
    (usable maxLevels ladder).length < (walked ladder size).length)).2
  have htake : ladder.take (usable maxLevels ladder).length = usable maxLevels ladder :=
    (List.prefix_iff_eq_take.mp usable_isPrefix).symm
  rw [htake] at hbehind
  omega

theorem legExact_fillOf {size : Int} (h : ValidLadder ladder) (hnonneg : 0 ≤ size)
    (hsize : size ≤ depth (usable maxLevels ladder)) :
    LegExact maxLevels ladder size (fillOf ladder size) := by
  have hdepth : size ≤ depth ladder := hsize.trans (depth_usable_le h)
  have hsum : depth (ladder.taken size) = size := by
    rw [depth_taken h.positive hnonneg, min_eq_left hdepth]
  have htouched := touched_usable h hsize
  refine ⟨⟨min_eq_left hdepth, decide_eq_false (not_lt.mpr hdepth)⟩, ⟨rfl, hsum⟩, htouched,
    fun levels hlevels => ?_,
    fun hsorted other hchoice hother => cost_taken_le h.positive hsorted hchoice hother,
    fun hsorted other hchoice hother => le_cost_taken h.positive hsorted hchoice hother⟩
  rw [hlevels] at htouched
  exact htouched.length_le.trans (List.length_take_le _ _)

theorem legExact_legsOf (h : ValidBasket basket) (hnonneg : 0 ≤ steps)
    (hsteps : steps ≤ stepLimit maxLevels basket) :
    List.Forall₂ (fun leg fill => LegExact maxLevels leg.1 (steps * leg.2) fill) basket
      (legsOf basket steps) := by
  unfold legsOf
  rw [List.forall₂_map_right_iff, List.forall₂_same]
  intro leg hleg
  obtain ⟨hladder, hunit⟩ := h.2 leg hleg
  exact legExact_fillOf hladder (mul_nonneg hnonneg hunit.le)
    ((le_stepLimit_iff h).mp hsteps leg hleg)

end Limits

/-! ## Candidates -/

/-- A level boundary lies between the step counts next to this one. -/
def Bends (maxLevels : Option Int) (basket : List BasketLeg) (s : Int) : Prop :=
  ∃ leg ∈ basket, ∃ k, 0 < k ∧ k ≤ (usable maxLevels leg.1).length ∧
    (s - 1) * leg.2 < depth ((usable maxLevels leg.1).take k) ∧
    depth ((usable maxLevels leg.1).take k) < (s + 1) * leg.2

/-- The boundaries the source computes. -/
def boundariesOf (maxLevels : Option Int) (basket : List BasketLeg) : List (List Int × Int) :=
  basket.map fun leg => (pointsFrom 0 ((usable maxLevels leg.1).map Prod.snd), leg.2)

section Candidates

variable {basket : List BasketLeg} {maxLevels : Option Int} {s limit best : Int}
  {boundaries : List (List Int × Int)} {ordered : List Int} {v : Int → Int}

theorem mem_pointsFrom {l : PriceLadder} {c : Int} {k : Nat} (hk : 0 < k) (hk' : k ≤ l.length) :
    c + depth (l.take k) ∈ pointsFrom c (l.map Prod.snd) := by
  induction l generalizing c k with
  | nil =>
    rw [List.length_nil] at hk'
    omega
  | cons level l ih =>
    rw [List.map_cons, pointsFrom]
    obtain ⟨k, rfl⟩ : ∃ n, k = n + 1 := ⟨k - 1, by omega⟩
    rw [List.take_succ_cons, depth_cons, ← add_assoc]
    cases k with
    | zero => simp
    | succ k =>
      rw [List.length_cons] at hk'
      exact List.mem_cons_of_mem _ (ih (by omega) (by omega))

/-- The step counts next to a boundary are candidates. -/
theorem mem_candidatesOf {points : List Int} {point unit : Int} (hboundary : (points, unit) ∈ boundaries)
    (hpoint : point ∈ points) (hunit : 0 < unit) (hs : 0 < s ∧ s ≤ limit)
    (hlow : (s - 1) * unit < point) (hhigh : point < (s + 1) * unit) :
    s ∈ candidatesOf limit boundaries := by
  refine List.mem_sortedSet.mpr (List.mem_filter.mpr ⟨List.mem_cons_of_mem _ ?_, by simpa using hs⟩)
  refine List.mem_flatMap.mpr ⟨(points, unit), hboundary, List.mem_flatMap.mpr ⟨point, hpoint, ?_⟩⟩
  by_cases hat : s * unit ≤ point
  · have hfloor : s = point / unit := by
      refine (Int.ediv_eq_iff_of_pos hunit).mpr ⟨hat, ?_⟩ |>.symm
      rw [add_mul] at hhigh
      omega
    exact hfloor ▸ List.mem_cons_self
  · have hceil : s = -(-point / unit) := by
      have hdiv : -point / unit = -s := by
        refine (Int.ediv_eq_iff_of_pos hunit).mpr ⟨?_, ?_⟩
        · rw [neg_mul]
          omega
        · rw [sub_mul] at hlow
          rw [neg_mul]
          omega
      omega
    exact hceil ▸ List.mem_cons_of_mem _ List.mem_cons_self

theorem pairwise_candidatesOf : (candidatesOf limit boundaries).Pairwise (· < ·) :=
  List.pairwise_sortedSet _

theorem limit_mem_candidatesOf (h : 0 < limit) : limit ∈ candidatesOf limit boundaries :=
  List.mem_sortedSet.mpr (List.mem_filter.mpr ⟨List.mem_cons_self, by simpa using h⟩)

theorem of_mem_candidatesOf (h : s ∈ candidatesOf limit boundaries) : 0 < s ∧ s ≤ limit := by
  simpa using (List.mem_filter.mp (List.mem_sortedSet.mp h)).2

/-- Between candidates the value is straight. -/
theorem isChain_straight (hsorted : (best :: ordered).Pairwise (· < ·))
    (hle : ∀ c ∈ ordered, c ≤ limit)
    (h : ∀ s, best < s → s < limit → s ∉ ordered → v (s + 1) - v s = v s - v (s - 1)) :
    (best :: ordered).IsChain fun a b => a < b ∧ StraightBetween v a b := by
  induction ordered generalizing best with
  | nil => exact List.isChain_singleton _
  | cons c ordered ih =>
    obtain ⟨hfirst, hsorted⟩ := List.pairwise_cons.mp hsorted
    have hc := hle c List.mem_cons_self
    have hmore := (List.pairwise_cons.mp hsorted).1
    refine List.isChain_cons_cons.mpr ⟨⟨hfirst c List.mem_cons_self, fun s hs hs' => ?_⟩,
      ih hsorted (fun d hd => hle d (List.mem_cons_of_mem _ hd)) fun s hs hs' hnot => ?_⟩
    · refine h s hs (by omega) fun hmem => ?_
      rcases List.mem_cons.mp hmem with rfl | hmem
      · omega
      · have := hmore s hmem
        omega
    · refine h s ((hfirst c List.mem_cons_self).trans hs) hs' fun hmem => ?_
      rcases List.mem_cons.mp hmem with rfl | hmem
      · omega
      · exact hnot hmem

theorem bends_mem_candidatesOf (h : ValidBasket basket) (hs : 0 < s ∧ s ≤ limit)
    (hbends : Bends maxLevels basket s) :
    s ∈ candidatesOf limit (boundariesOf maxLevels basket) := by
  obtain ⟨leg, hleg, k, hk, hk', hlow, hhigh⟩ := hbends
  have hpoint := @mem_pointsFrom (usable maxLevels leg.1) 0 k hk hk'
  rw [zero_add] at hpoint
  exact mem_candidatesOf (List.mem_map_of_mem hleg) hpoint (h.2 leg hleg).2 hs hlow hhigh

end Candidates

/-! ## The walk -/

/-- What some steps are worth; none are worth zero. -/
def worthOf (value : Option Valuation) (basket : List BasketLeg) (steps : Int) : Option Int :=
  if steps = 0 then some 0 else valued value steps (legsOf basket steps)

/-- What the result of the edge walk is. -/
structure EdgeSound (maxLevels : Option Int) (basket : List BasketLeg) (value : Option Valuation)
    (fill : BasketFill) : Prop where
  range : 0 ≤ fill.steps ∧ fill.steps ≤ stepLimit maxLevels basket
  edge : fill.stop = .edge → ∃ here next, worthOf value basket fill.steps = some here ∧
    worthOf value basket (fill.steps + 1) = some next ∧ next ≤ here
  /-- A concave value that is straight between boundaries has its first maximum there. -/
  maximum : ∀ v : Int → Int,
    (∀ s, 0 ≤ s → s ≤ stepLimit maxLevels basket → worthOf value basket s = some (v s)) →
    ConcaveBetween v 0 (stepLimit maxLevels basket) →
    (∀ s, 0 < s → s < stepLimit maxLevels basket → ¬ Bends maxLevels basket s →
      v (s + 1) - v s = v s - v (s - 1)) →
    (∀ s, 0 ≤ s → s ≤ stepLimit maxLevels basket → v s ≤ v fill.steps) ∧
      ∀ s, 0 ≤ s → s < fill.steps → v s < v fill.steps

/-- What the result for a target is. -/
structure TargetSound (maxLevels : Option Int) (basket : List BasketLeg) (target : Int)
    (fill : BasketFill) : Prop where
  served : fill.stop = .target ∧ fill.steps = target ↔ Allows maxLevels basket target
  short : ¬ Allows maxLevels basket target →
    fill.steps = stepLimit maxLevels basket ∧ fill.steps < target ∧ fill.stop ≠ .target

/-- Every leg of a result takes the atoms of its steps. -/
def LegsExact (maxLevels : Option Int) (basket : List BasketLeg) (fill : BasketFill) : Prop :=
  List.Forall₂ (fun leg legFill => LegExact maxLevels leg.1 (fill.steps * leg.2) legFill) basket
    fill.legs

/-- A result is what its steps are priced at. -/
structure IsPriced (basket : List BasketLeg) (value : Option Valuation) (fill : BasketFill) :
    Prop where
  legs_eq : fill.legs = legsOf basket fill.steps
  before_eq : fill.before = basket.map (·.1.head?)
  value_eq : fill.value = if fill.steps = 0 then none else valued value fill.steps fill.legs

section Walk

variable {basket : List BasketLeg} {maxLevels : Option Int} {value : Option Valuation}
  {steps target : Int}

theorem before_priced {fills : List Fill} {stop : FillStop} {result : Option Int}
    (h : fills.length = basket.length) :
    (priced maxLevels basket steps fills stop result).before = basket.map (·.1.head?) := by
  show (basket.zip fills).map (fun pair => pair.1.1.head?) = _
  rw [← Function.comp_def (fun leg : BasketLeg => leg.1.head?) Prod.fst, ← List.map_map,
    List.map_fst_zip h.ge]

theorem length_legsOf : (legsOf basket steps).length = basket.length := List.length_map _

theorem exhaustedStop_ne : exhaustedStop maxLevels basket ≠ .edge ∧
    exhaustedStop maxLevels basket ≠ .target := by
  unfold exhaustedStop
  cases maxLevels with
  | none => simp
  | some levels =>
    simp only
    split <;> simp

theorem edgeFill_sound (h : ValidBasket basket) :
    ∃ fill, edgeFill maxLevels basket (boundariesOf maxLevels basket) value = .ok fill ∧
      IsPriced basket value fill ∧ LegsExact maxLevels basket fill ∧
      EdgeSound maxLevels basket value fill := by
  have hlimit := @stepLimit_nonneg basket maxLevels h
  -- what the loop asks for at each step
  have hat (s : Int) (hs : 0 < s) (_ : s ≤ stepLimit maxLevels basket) : (do
      let fills ← legsAt basket s
      return (fills, valued value s fills) : Except Raised (List Fill × Option Int)) =
        .ok (legsOf basket s, worthOf value basket s) := by
    rw [legsAt_eq h hs.le, Except.ok_bind, worthOf, if_neg (by omega)]
    rfl
  have hsorted : (candidatesOf (stepLimit maxLevels basket)
      (boundariesOf maxLevels basket)).Pairwise (· < ·) := pairwise_candidatesOf
  have hin (c : Int) (hc : c ∈ candidatesOf (stepLimit maxLevels basket)
      (boundariesOf maxLevels basket)) := of_mem_candidatesOf hc
  have hlast : 0 = stepLimit maxLevels basket ∨ stepLimit maxLevels basket ∈
      candidatesOf (stepLimit maxLevels basket) (boundariesOf maxLevels basket) :=
    hlimit.eq_or_lt.imp_right limit_mem_candidatesOf
  obtain ⟨best, hbest, hend⟩ := @edgeLoop_end _ (legsOf basket) (worthOf value basket) _
    (exhaustedStop maxLevels basket) _ 0 0 hat hsorted hin hlast le_rfl rfl
  refine ⟨priced maxLevels basket best.steps best.legs best.stop
    (if best.steps = 0 then none else best.value), ?_, ⟨hend.legs_eq, ?_, ?_⟩, ?_,
    ⟨hend.range, fun hstop => ?_, fun v hv hconcave hlinear => ?_⟩⟩
  · unfold edgeFill
    rw [legsAt_eq h le_rfl, Except.ok_bind]
    dsimp only
    rw [show edgeLoop _ _ _ 0 0 (legsOf basket 0) = .ok best from hbest, Except.ok_bind]
    rfl
  · exact before_priced (by rw [hend.legs_eq, length_legsOf])
  · show (if best.steps = 0 then none else best.value) =
      if best.steps = 0 then none else valued value best.steps best.legs
    rw [hend.value_eq, hend.legs_eq, worthOf]
    split <;> rfl
  · show List.Forall₂ _ basket best.legs
    rw [hend.legs_eq]
    exact legExact_legsOf h hend.range.1 hend.range.2
  · rcases hend.stops with ⟨-, -, hedge⟩ | ⟨hexhausted, -⟩ | ⟨hunknown, -⟩
    · exact hedge
    · exact absurd (hexhausted.symm.trans hstop) exhaustedStop_ne.1
    · exact absurd (hunknown.symm.trans hstop) (by decide)
  · have hzero : v 0 = 0 := (Option.some.inj (hv 0 le_rfl hlimit)).symm
    have hat' (s : Int) (hs : 0 < s) (hs' : s ≤ stepLimit maxLevels basket) :=
      (hat s hs hs').trans (by rw [hv s hs.le hs'])
    have hchain := isChain_straight (List.pairwise_cons.mpr ⟨fun c hc => (hin c hc).1, hsorted⟩)
      (fun c hc => (hin c hc).2) fun s hs hs' hnot => hlinear s hs hs' fun hbends =>
        hnot (bends_mem_candidatesOf h ⟨hs, hs'.le⟩ hbends)
    refine @edgeLoop_max _ _ _ (exhaustedStop maxLevels basket) _ 0 v (legsOf basket 0) best hat' hchain
      (fun c hc => (hin c hc).2) hlast le_rfl hlimit hconcave
      (fun s hs hs' => absurd hs (not_le.mpr hs')) ?_
    rw [hzero]
    exact hbest

/-- The result for a target: its own steps, or the limit. -/
def targetFill (maxLevels : Option Int) (basket : List BasketLeg) (value : Option Valuation)
    (target : Int) : BasketFill :=
  let (steps, stop) :=
    if target ≤ stepLimit maxLevels basket then (target, .target)
    else (stepLimit maxLevels basket, exhaustedStop maxLevels basket)
  priced maxLevels basket steps (legsOf basket steps) stop (valued value steps (legsOf basket steps))

theorem valued_eq {fills : List Fill} :
    valued value steps fills = if steps = 0 then none else valued value steps fills := by
  unfold valued
  cases value with
  | none => simp
  | some value => split_ifs <;> rfl

theorem isPriced_targetFill : IsPriced basket value (targetFill maxLevels basket value target) := by
  unfold targetFill
  split_ifs <;> exact ⟨rfl, before_priced length_legsOf, valued_eq⟩

theorem targetFill_sound (h : ValidBasket basket) (htarget : 0 < target) :
    LegsExact maxLevels basket (targetFill maxLevels basket value target) ∧
      TargetSound maxLevels basket target (targetFill maxLevels basket value target) := by
  have hlimit := @stepLimit_nonneg basket maxLevels h
  unfold targetFill
  split_ifs with hle
  · have hallows := (le_stepLimit_iff h).mp hle
    exact ⟨legExact_legsOf h htarget.le hle,
      ⟨iff_of_true ⟨rfl, rfl⟩ hallows, fun hshort => absurd hallows hshort⟩⟩
  · have hshort := mt (le_stepLimit_iff h).mpr hle
    refine ⟨legExact_legsOf h hlimit le_rfl, ⟨iff_of_false ?_ hshort, fun _ =>
      ⟨rfl, not_le.mp hle, exhaustedStop_ne.2⟩⟩⟩
    exact fun hserved => exhaustedStop_ne.2 hserved.1

end Walk

/-- What `walk_basket` accepts of well-formed ladders. -/
structure ValidWalk (ladders : List PriceLadder) (units targets : List Int)
    (value : Option Valuation) (edge : Bool) (maxLevels : Option Int) : Prop where
  legs : units ≠ [] ∧ ladders.length = units.length
  ladder : ∀ ladder ∈ ladders, ValidLadder ladder
  unit : ∀ unit ∈ units, 0 < unit
  target : (∀ target ∈ targets, 0 < target) ∧ targets.Pairwise (· < ·)
  asked : targets ≠ [] ∨ edge = true
  valued : edge = true → value.isSome
  level : ∀ levels, maxLevels = some levels → 0 < levels

section ValidWalk

variable {ladders : List PriceLadder} {units targets : List Int} {value : Option Valuation}
  {edge : Bool} {maxLevels : Option Int}

theorem ValidWalk.basket (h : ValidWalk ladders units targets value edge maxLevels) :
    ValidBasket (ladders.zip units) := by
  refine ⟨fun hnil => ?_, fun leg hleg => ?_⟩
  · have hlength := congrArg List.length hnil
    rw [List.length_zip, h.legs.2, min_self, List.length_nil] at hlength
    exact h.legs.1 (List.eq_nil_of_length_eq_zero hlength)
  · obtain ⟨hladder, hunit⟩ := List.of_mem_zip hleg
    exact ⟨h.ladder _ hladder, h.unit _ hunit⟩

theorem boundaries_eq {basket : List BasketLeg} (h : ValidBasket basket) :
    (basket.mapM fun leg => do
      let quantities ← (usable maxLevels leg.1).mapM level
      return (pointsFrom 0 quantities, leg.2)) =
      (.ok (boundariesOf maxLevels basket) : Except Raised (List (List Int × Int))) := by
  refine mapM_eq_map fun leg hleg => ?_
  have hladder := @validLadder_usable maxLevels leg.1 (h.2 leg hleg).1
  rw [mapM_eq_map fun value hvalue => level_eq_ok (hladder value hvalue), Except.ok_bind]
  rfl

theorem targets_eq {basket : List BasketLeg} (h : ValidBasket basket)
    (htargets : ∀ target ∈ targets, 0 < target) :
    (targets.mapM fun target => do
      let (steps, stop) := if target ≤ stepLimit maxLevels basket then (target, .target)
        else (stepLimit maxLevels basket, exhaustedStop maxLevels basket)
      let fills ← legsAt basket steps
      return priced maxLevels basket steps fills stop (valued value steps fills)) =
      (.ok (targets.map (targetFill maxLevels basket value)) : Except Raised (List BasketFill)) := by
  refine mapM_eq_map fun target htarget => ?_
  have hlimit := @stepLimit_nonneg basket maxLevels h
  unfold targetFill
  split_ifs with hle
  · simp only [legsAt_eq h (htargets target htarget).le, Except.ok_bind]
    rfl
  · simp only [legsAt_eq h hlimit, Except.ok_bind]
    rfl

/-- On valid input the results are those of the targets and that of the edge. -/
theorem walkBasket_eq (h : ValidWalk ladders units targets value edge maxLevels) {best : BasketFill}
    (hbest : edgeFill maxLevels (ladders.zip units) (boundariesOf maxLevels (ladders.zip units)) value =
      .ok best) :
    walkBasket ladders units targets value edge maxLevels =
      .ok (targets.map (targetFill maxLevels (ladders.zip units) value) ++
        if edge then [best] else []) := by
  have hbasket := h.basket
  have hunits : ¬ ∃ unit ∈ units, unit ≤ 0 := fun ⟨unit, hmem, hle⟩ =>
    absurd (h.unit unit hmem) (not_lt.mpr hle)
  have htargets : ¬ ∃ target ∈ targets, target ≤ 0 := fun ⟨target, hmem, hle⟩ =>
    absurd (h.target.1 target hmem) (not_lt.mpr hle)
  have hsorted := List.eq_sortedSet_iff.mpr h.target.2
  have hlevels : ¬ maxLevels.any (· ≤ 0) = true := by
    cases hmax : maxLevels with
    | none => simp
    | some levels => simpa using h.level levels hmax
  have hasked : ¬ (targets = [] ∧ edge = false) := by
    rcases h.asked with hne | hedge
    · exact fun hnone => hne hnone.1
    · simp [hedge]
  have hvalued : ¬ (edge = true ∧ value.isNone = true) := by
    intro ⟨hedge, hnone⟩
    have hsome := h.valued hedge
    rw [Option.isNone_iff_eq_none.mp hnone] at hsome
    cases hsome
  unfold walkBasket
  rw [if_neg (not_or.mpr ⟨h.legs.1, not_not.mpr h.legs.2⟩), if_neg hunits, if_neg htargets,
    if_neg (not_not.mpr hsorted), if_neg hasked, if_neg hvalued, if_neg hlevels]
  dsimp only
  rw [boundaries_eq hbasket, Except.ok_bind, targets_eq hbasket h.target.1, Except.ok_bind]
  cases edge with
  | false => simp
  | true => simp [hbest]

end ValidWalk

/-- A basket that pays 100 a step, less the costs of its legs. -/
def netOfHundred : Valuation := fun steps legs => some (100 * steps - (legs.map (·.cost)).sum)

end PredictionIndexer.Replay
