import PredictionIndexer.Replay.FillChecks
import PredictionIndexer.Spec.BasketWalk

/-!
# Fills open alive

The bisection keeps a price that is not worth it between its bounds and a better one that is next to
it. The tightest of the governing kill prices is one of them, none of which the best price of its leg
has reached, so no leg of a fill that opens is crossed.
-/

namespace PredictionIndexer.Replay

open Fallible PriceLadder

/-! ## Bisection -/

section Bisection

variable {positive : Int → Bool} {low high : Int}

theorem lowerKill_spec (hlow : positive low = false) (hlt : low < high) :
    low ≤ lowerKill positive low high ∧ lowerKill positive low high < high ∧
      positive (lowerKill positive low high) = false ∧
      (positive (lowerKill positive low high + 1) = true ∨ lowerKill positive low high + 1 = high) := by
  fun_induction lowerKill positive low high with
  | case1 low high hgap hmid ih =>
    obtain ⟨hge, hlt', hfalse, hnext⟩ := ih hlow (by omega)
    refine ⟨hge, by omega, hfalse, .inl ?_⟩
    rcases hnext with hnext | hnext
    · exact hnext
    · rw [hnext]
      exact hmid
  | case2 low high hgap hmid ih =>
    obtain ⟨hge, hlt', hfalse, hnext⟩ := ih (by simpa using hmid) (by omega)
    exact ⟨by omega, hlt', hfalse, hnext⟩
  | case3 low high hgap => exact ⟨le_rfl, hlt, hlow, .inr (by omega)⟩

theorem upperKill_spec (hhigh : positive high = false) (hlt : low < high) :
    low < upperKill positive low high ∧ upperKill positive low high ≤ high ∧
      positive (upperKill positive low high) = false ∧
      (positive (upperKill positive low high - 1) = true ∨ upperKill positive low high - 1 = low) := by
  fun_induction upperKill positive low high with
  | case1 low high hgap hmid ih =>
    obtain ⟨hlt', hle, hfalse, hnext⟩ := ih hhigh (by omega)
    refine ⟨by omega, hle, hfalse, .inl ?_⟩
    rcases hnext with hnext | hnext
    · exact hnext
    · rw [hnext]
      exact hmid
  | case2 low high hgap hmid ih =>
    obtain ⟨hlt', hle, hfalse, hnext⟩ := ih (by simpa using hmid) (by omega)
    exact ⟨hlt', by omega, hfalse, hnext⟩
  | case3 low high hgap => exact ⟨hlt, le_rfl, hhigh, .inr (by omega)⟩

end Bisection

/-! ## Kill prices -/

/-- What a kill price is: not worth it there, worth it at the next better price, and the first such
    price where the worth is monotone. -/
structure KillSound (positive : Int → Bool) (maximum : Int) (sell : Bool) (kill : Option Int) :
    Prop where
  none_iff : kill = none ↔ positive (if sell then 0 else maximum) = true
  range : ∀ k, kill = some k → 0 ≤ k ∧ k ≤ maximum
  dead : ∀ k, kill = some k → positive k = false
  bought : sell = false → ∀ k, kill = some k → (0 < k → positive (k - 1) = true) ∧
    ((∀ p q, 0 ≤ p → p ≤ q → q ≤ maximum → positive q = true → positive p = true) →
      ∀ p, 0 ≤ p → p < k → positive p = true)
  sold : sell = true → ∀ k, kill = some k → (k < maximum → positive (k + 1) = true) ∧
    ((∀ p q, 0 ≤ p → p ≤ q → q ≤ maximum → positive p = true → positive q = true) →
      ∀ p, k < p → p ≤ maximum → positive p = true)

section KillPrice

variable {positive : Int → Bool} {value : Valuation} {steps maximum : Int} {legs : List Fill}
  {leg : Nat} {fill : Fill} {sell : Bool}

theorem killSound_sold (hmaximum : 0 ≤ maximum) (h : positive 0 = false) :
    KillSound positive maximum true (some (lowerKill positive 0 (maximum + 1))) := by
  obtain ⟨hge, hlt, hfalse, hnext⟩ := lowerKill_spec h (show 0 < maximum + 1 by omega)
  have hadjacent (hk : lowerKill positive 0 (maximum + 1) < maximum) :
      positive (lowerKill positive 0 (maximum + 1) + 1) = true := hnext.resolve_right (by omega)
  refine ⟨by simp [h], ?_, ?_, by simp, ?_⟩
  · intro k hk
    cases hk
    exact ⟨hge, by omega⟩
  · intro k hk
    cases hk
    exact hfalse
  · intro _ k hk
    cases hk
    refine ⟨hadjacent, fun hmono p hp hp' => ?_⟩
    exact hmono _ p (by omega) (by omega) hp' (hadjacent (by omega))

theorem killSound_bought (hmaximum : 0 ≤ maximum) (h : positive maximum = false) :
    KillSound positive maximum false (some (upperKill positive (-1) maximum)) := by
  obtain ⟨hlt, hle, hfalse, hnext⟩ := upperKill_spec h (show -1 < maximum by omega)
  have hadjacent (hk : 0 < upperKill positive (-1) maximum) :
      positive (upperKill positive (-1) maximum - 1) = true := hnext.resolve_right (by omega)
  refine ⟨by simp [h], ?_, ?_, ?_, by simp⟩
  · intro k hk
    cases hk
    exact ⟨by omega, hle⟩
  · intro k hk
    cases hk
    exact hfalse
  · intro _ k hk
    cases hk
    refine ⟨hadjacent, fun hmono p hp hp' => ?_⟩
    exact hmono p _ hp (by omega) (by omega) (hadjacent (by omega))

theorem killSound_none (h : positive (if sell then 0 else maximum) = true) :
    KillSound positive maximum sell none where
  none_iff := iff_of_true rfl h
  range := by simp
  dead := by simp
  bought := by simp
  sold := by simp

theorem killPrice_sound (hsteps : 0 < steps) (hmaximum : 0 ≤ maximum) (hfill : legs[leg]? = some fill)
    (hatoms : 0 < fill.filledAtoms) : ∃ kill,
      killPrice value steps legs leg maximum sell = .ok kill ∧
        KillSound (positiveAt value steps legs leg fill.filledAtoms) maximum sell kill := by
  unfold killPrice
  rw [if_neg (by omega), hfill]
  simp only [if_neg (not_le.mpr hatoms)]
  cases sell with
  | true =>
    simp only [if_true]
    split_ifs with hworst
    · exact ⟨none, rfl, killSound_none hworst⟩
    · exact ⟨_, rfl, killSound_sold hmaximum (by simpa using hworst)⟩
  | false =>
    simp only [Bool.false_eq_true, if_false]
    split_ifs with hworst
    · exact ⟨none, rfl, killSound_none hworst⟩
    · exact ⟨_, rfl, killSound_bought hmaximum (by simpa using hworst)⟩

end KillPrice

/-! ## Tightest -/

/-- The tightest of some kill prices, where there is one. -/
structure IsTightest (sell : Bool) (kills : List (Option Int)) (kill : Option Int) : Prop where
  none_iff : kill = none ↔ ∀ k ∈ kills, k = none
  mem : kill ≠ none → kill ∈ kills
  bound : ∀ p q, kill = some p → some q ∈ kills → if sell then q ≤ p else p ≤ q

section Tightest

variable {sell : Bool} {current kill tightest : Option Int} {kills : List (Option Int)}

theorem tighter_eq_none : tighter current kill sell = none ↔ current = none ∧ kill = none := by
  cases current <;> cases kill <;> simp [tighter]

theorem tighter_choice : tighter current kill sell = current ∨ tighter current kill sell = kill := by
  cases current with
  | none => exact .inr rfl
  | some c =>
    cases kill with
    | none => exact .inl rfl
    | some k =>
      cases sell with
      | true => exact (max_choice c k).imp (congrArg some) (congrArg some)
      | false => exact (min_choice c k).imp (congrArg some) (congrArg some)

theorem tighter_bound {q : Int} (h : current = some q ∨ kill = some q) :
    ∃ t, tighter current kill sell = some t ∧ if sell then q ≤ t else t ≤ q := by
  cases current with
  | none =>
    have hkill := h.resolve_left (by simp)
    exact ⟨q, hkill, by split <;> exact Int.le_refl q⟩
  | some c =>
    cases kill with
    | none =>
      have hcurrent := h.resolve_right (by simp)
      exact ⟨q, hcurrent, by split <;> exact Int.le_refl q⟩
    | some k =>
      simp only [Option.some.injEq] at h
      refine ⟨_, rfl, ?_⟩
      split <;> omega

theorem isTightest_singleton : IsTightest sell [kill] kill where
  none_iff := by simp
  mem := fun _ => List.mem_singleton.mpr rfl
  bound := by
    intro p q hp hq
    cases hp.symm.trans (List.mem_singleton.mp hq).symm
    split <;> exact Int.le_refl p

theorem isTightest_cons (h : IsTightest sell (tighter current kill sell :: kills) tightest) :
    IsTightest sell (current :: kill :: kills) tightest where
  none_iff := by
    rw [h.none_iff]
    simp only [List.forall_mem_cons, tighter_eq_none, and_assoc]
  mem := by
    intro hne
    rcases List.mem_cons.mp (h.mem hne) with heq | hmem
    · rcases @tighter_choice sell current kill with hchoice | hchoice
      · exact heq.trans hchoice ▸ List.mem_cons_self
      · exact heq.trans hchoice ▸ List.mem_cons_of_mem _ List.mem_cons_self
    · exact List.mem_cons_of_mem _ (List.mem_cons_of_mem _ hmem)
  bound := by
    intro p q hp hq
    have hsplit : (current = some q ∨ kill = some q) ∨ some q ∈ kills := by
      simpa [eq_comm, or_assoc] using hq
    rcases hsplit with hfirst | hrest
    · obtain ⟨t, ht, hbound⟩ := @tighter_bound sell current kill q hfirst
      have hmost := h.bound p t hp (ht ▸ List.mem_cons_self)
      cases sell with
      | true => exact Int.le_trans hbound hmost
      | false => exact Int.le_trans hmost hbound
    · exact h.bound p q hp (List.mem_cons_of_mem _ hrest)

/-- The fold over the governing sizings finds the tightest. -/
theorem isTightest_foldl : IsTightest sell (current :: kills)
    (kills.foldl (fun current kill => tighter current kill sell) current) := by
  induction kills generalizing current with
  | nil => exact isTightest_singleton
  | cons kill kills ih => exact isTightest_cons ih

theorem isTightest_of_none (h : IsTightest sell (none :: kills) tightest) :
    IsTightest sell kills tightest where
  none_iff := by
    rw [h.none_iff]
    simp
  mem := fun hne => (List.mem_cons.mp (h.mem hne)).resolve_left hne
  bound := fun p q hp hq => h.bound p q hp (List.mem_cons_of_mem _ hq)

end Tightest

/-! ## Best prices -/

/-- No best price has reached the kill price of its leg. -/
def NotReached (kills : List (Option Int)) (bests : List (Option (Int × Int))) (sides : List Bool) :
    Prop :=
  ∀ (leg : Nat) kill level side, kills[leg]? = some kill → bests[leg]? = some (some level) →
    sides[leg]? = some side → reached level.1 kill side = false

section NotReached

variable {kills : List (Option Int)} {bests : List (Option (Int × Int))} {sides : List Bool}
  {kill : Option Int} {best : Option (Int × Int)} {side : Bool}

theorem notReached_cons : NotReached (kill :: kills) (best :: bests) (side :: sides) ↔
    (∀ level, best = some level → reached level.1 kill side = false) ∧
      NotReached kills bests sides := by
  constructor
  · intro h
    refine ⟨fun level hlevel => h 0 kill level side rfl (congrArg some hlevel) rfl, ?_⟩
    intro leg kill level side hkill hbest hside
    exact h (leg + 1) kill level side hkill hbest hside
  · intro ⟨hfirst, hrest⟩ leg kill' level side' hkill hbest hside
    cases leg with
    | zero =>
      cases hkill
      cases hside
      exact hfirst level (Option.some.inj hbest)
    | succ leg => exact hrest leg kill' level side' hkill hbest hside

theorem anyReached_eq (hlength : bests.length = kills.length ∧ sides.length = kills.length)
    (hbests : ∀ best ∈ bests, best ≠ none) : ∃ any, anyReached kills bests sides = .ok any ∧
      (any = false ↔ NotReached kills bests sides) := by
  induction kills generalizing bests sides with
  | nil =>
    refine ⟨false, by simp [anyReached], iff_of_true rfl ?_⟩
    intro leg kill level side hkill
    simp at hkill
  | cons kill kills ih =>
    cases bests with
    | nil => simp at hlength
    | cons best bests =>
      cases sides with
      | nil => simp at hlength
      | cons side sides =>
        cases best with
        | none => exact absurd rfl (hbests none List.mem_cons_self)
        | some level =>
          rw [anyReached]
          by_cases hreached : reached level.1 kill side = true
          · refine ⟨true, by simp [hreached], iff_of_false (by simp) fun h => ?_⟩
            have hfirst := (notReached_cons.mp h).1 level rfl
            rw [hreached] at hfirst
            cases hfirst
          · obtain ⟨any, hany, hiff⟩ := @ih bests sides (by simpa using hlength)
              fun best hbest => hbests best (List.mem_cons_of_mem _ hbest)
            refine ⟨any, by simp [hreached, hany], ?_⟩
            rw [hiff, notReached_cons]
            have hfalse : reached level.1 kill side = false := by simpa using hreached
            simp [hfalse]

/-- `crossed` finds a leg unless none is reached. -/
theorem crossedFrom_eq_none {sources : List FillSource} {ladders : List PriceLadder} {leg : Nat}
    (hlength : sources.length = kills.length ∧ ladders.length = kills.length) :
    crossedFrom leg kills sources ladders = none ↔
      NotReached kills (ladders.map (·.head?)) (sources.map (·.sells)) := by
  induction kills generalizing sources ladders leg with
  | nil =>
    refine iff_of_true (by simp [crossedFrom]) ?_
    intro leg kill level side hkill
    simp at hkill
  | cons kill kills ih =>
    cases sources with
    | nil => simp at hlength
    | cons source sources =>
      cases ladders with
      | nil => simp at hlength
      | cons ladder ladders =>
        have hrest := @ih sources ladders (leg + 1) (by simpa using hlength)
        rw [List.map_cons, List.map_cons, notReached_cons, ← hrest]
        cases ladder with
        | nil =>
          show crossedFrom (leg + 1) kills sources ladders = none ↔ _
          simp
        | cons level rest =>
          show (if reached level.1 kill source.sells then some (leg, level)
            else crossedFrom (leg + 1) kills sources ladders) = none ↔ _
          split_ifs with hreached
          · simp [hreached]
          · simp [hreached]

end NotReached

/-! ## Sizings -/

theorem exists_mapM_ok {α β : Type} {f : α → Except Raised β} {R : α → β → Prop} {l : List α}
    (h : ∀ a ∈ l, ∃ b, f a = .ok b ∧ R a b) :
    ∃ r, l.mapM f = .ok r ∧ List.Forall₂ R l r := by
  induction l with
  | nil => exact ⟨[], rfl, .nil⟩
  | cons a l ih =>
    obtain ⟨b, hb, hR⟩ := h a List.mem_cons_self
    obtain ⟨r, hr, hrest⟩ := ih fun a ha => h a (List.mem_cons_of_mem _ ha)
    refine ⟨b :: r, ?_, .cons hR hrest⟩
    rw [List.mapM_cons, hb, Except.ok_bind, hr]
    rfl

/-- The ladders that a spec's legs walk. -/
structure FitsSpec (spec : FillSpec) (ladders : List PriceLadder) : Prop where
  length : ladders.length = spec.units.length
  valid : ∀ ladder ∈ ladders, ValidLadder ladder

/-- A target is served in full; an edge walk takes steps. -/
def Served (sizing : FillSizing) (result : BasketFill) : Prop :=
  match sizing.mode with
  | .target steps => result.steps = steps
  | .edge => result.steps ≠ 0

/-- A kill price for each leg. -/
structure KillsSound (spec : FillSpec) (value : Valuation) (result : BasketFill)
    (kills : List (Option Int)) : Prop where
  length : kills.length = spec.units.length
  sound : ∀ (leg : Nat) fill maximum side kill, result.legs[leg]? = some fill →
    spec.maxima[leg]? = some maximum → spec.sell[leg]? = some side → kills[leg]? = some kill →
    KillSound (positiveAt value result.steps result.legs leg fill.filledAtoms) maximum side kill

/-- A fill of a sizing is worth opening: it is served, it is worth a known positive integer, and no
    best price has reached a kill price. -/
structure Tradeable (spec : FillSpec) (ladders : List PriceLadder) (value : Valuation)
    (sizing : FillSizing) (result : BasketFill) (kills : List (Option Int)) : Prop where
  served : Served sizing result
  worth : ∃ worth, value result.steps result.legs = some worth ∧ 0 < worth
  prices : killPrices result value spec.maxima spec.sell = .ok kills ∧
    KillsSound spec value result kills
  alive : NotReached kills (ladders.map (·.head?)) spec.sell

/-- What a sizing is priced at. -/
structure SizingSound (spec : FillSpec) (ladders : List PriceLadder) (value : Valuation)
    (sizing : FillSizing) (result : BasketFill) : Prop where
  priced : IsPriced (ladders.zip spec.units) (some value) result
  atoms : List.Forall₂ (fun unit fill => fill.filledAtoms = result.steps * unit) spec.units result.legs
  nonneg : 0 ≤ result.steps
  most : ∀ steps, sizing.mode = .target steps → 0 < steps ∧ result.steps ≤ steps

/-- A governing sizing has no reason against it just if it is tradeable. -/
structure AssessSound (spec : FillSpec) (ladders : List PriceLadder) (value : Valuation)
    (sizing : FillSizing) (result : BasketFill) (kills : Option (List (Option Int)))
    (reason : Option FillState) : Prop where
  known : ∀ r, reason = some r → r ∈ noFillPrecedence
  refused : reason ≠ none → ¬ ∃ prices, Tradeable spec ladders value sizing result prices
  traded : reason = none → ∃ prices, kills = some prices ∧
    Tradeable spec ladders value sizing result prices

section Sizing

variable {policy : FillPolicy} {spec : FillSpec} {ladders : List PriceLadder} {value : Valuation}
  {sizing : FillSizing} {result : BasketFill}

theorem atoms_of_legsExact {maxLevels : Option Int} (h : FitsSpec spec ladders)
    (hlegs : LegsExact maxLevels (ladders.zip spec.units) result) :
    List.Forall₂ (fun unit fill => fill.filledAtoms = result.steps * unit) spec.units result.legs := by
  have hunits : spec.units = (ladders.zip spec.units).map Prod.snd :=
    (List.map_snd_zip h.length.ge).symm
  rw [hunits, List.forall₂_map_left_iff]
  exact hlegs.imp fun leg fill hleg => hleg.filled.1

theorem walkSizing_sound (h : FitsSpec spec ladders) (hmem : sizing ∈ policy.sizings) :
    ∃ result, walkSizing sizing ladders spec.units value policy.maxLevels = .ok result ∧
      SizingSound spec ladders value sizing result := by
  have hcap : ∀ levels, some policy.maxLevels = some levels → 0 < levels := by
    intro levels hlevels
    cases hlevels
    exact policy.capped
  cases hmode : sizing.mode with
  | target steps =>
    have hsteps := policy.targets sizing hmem steps hmode
    have hvalid : ValidWalk ladders spec.units [steps] (some value) false (some policy.maxLevels) :=
      ⟨⟨spec.legs.1, h.length⟩, h.valid, spec.positive, ⟨by simpa using hsteps, by simp⟩, by simp,
        by simp, hcap⟩
    obtain ⟨best, hbest, -⟩ := @edgeFill_sound _ (some policy.maxLevels) (some value) hvalid.basket
    have hrun := walkBasket_eq hvalid hbest
    obtain ⟨hlegs, hserved⟩ := @targetFill_sound _ (some policy.maxLevels) (some value) steps
      hvalid.basket hsteps
    refine ⟨_, ?_, isPriced_targetFill, atoms_of_legsExact h hlegs, ?_, ?_⟩
    · unfold walkSizing
      rw [hmode]
      simp only [hrun, Except.ok_bind]
      rfl
    · by_cases hallows : Allows (some policy.maxLevels) (ladders.zip spec.units) steps
      · rw [(hserved.served.mpr hallows).2]
        exact hsteps.le
      · rw [(hserved.short hallows).1]
        exact stepLimit_nonneg hvalid.basket
    · intro steps' hsteps'
      cases hmode.symm.trans hsteps'
      refine ⟨hsteps, ?_⟩
      by_cases hallows : Allows (some policy.maxLevels) (ladders.zip spec.units) steps
      · exact (hserved.served.mpr hallows).2.le
      · exact (hserved.short hallows).2.1.le
  | edge =>
    have hvalid : ValidWalk ladders spec.units [] (some value) true (some policy.maxLevels) :=
      ⟨⟨spec.legs.1, h.length⟩, h.valid, spec.positive, ⟨by simp, List.Pairwise.nil⟩, .inr rfl,
        fun _ => rfl, hcap⟩
    obtain ⟨best, hbest, hpriced, hlegs, hsound⟩ :=
      @edgeFill_sound _ (some policy.maxLevels) (some value) hvalid.basket
    refine ⟨best, ?_, hpriced, atoms_of_legsExact h hlegs, hsound.range.1, fun steps hsteps => ?_⟩
    swap
    · cases hmode.symm.trans hsteps
    unfold walkSizing
    rw [hmode]
    simp only [walkBasket_eq hvalid hbest, Except.ok_bind]
    rfl

/-- With steps every leg has atoms, and so a kill price. -/
theorem killPrices_sound (hsound : SizingSound spec ladders value sizing result)
    (hsteps : 0 < result.steps) : ∃ kills,
      killPrices result value spec.maxima spec.sell = .ok kills ∧
        KillsSound spec value result kills := by
  have hlength := hsound.atoms.length_eq
  have hmaxima := spec.legs.2.2
  have hsell : spec.sell.length = spec.units.length := by
    rw [FillSpec.sell, List.length_map, spec.legs.2.1]
  obtain ⟨kills, hkills, hall⟩ : ∃ kills, killPrices result value spec.maxima spec.sell = .ok kills ∧
      List.Forall₂ (fun leg kill => ∀ fill maximum side, result.legs[leg]? = some fill →
        spec.maxima[leg]? = some maximum → spec.sell[leg]? = some side →
        KillSound (positiveAt value result.steps result.legs leg fill.filledAtoms) maximum side kill)
        (List.range result.legs.length) kills := by
    -- the kill price of one leg
    apply exists_mapM_ok
    intro leg hmem
    have hlt : leg < result.legs.length := List.mem_range.mp hmem
    have hunit : leg < spec.units.length := by omega
    have hatoms := (List.forall₂_iff_get.mp hsound.atoms).2 leg hunit hlt
    have hpos := mul_pos hsteps (spec.positive _ (List.getElem_mem hunit))
    have hfill : 0 < (result.legs[leg]).filledAtoms := by
      have heq : (result.legs[leg]).filledAtoms = result.steps * spec.units[leg] := hatoms
      omega
    rw [List.getElem?_eq_getElem (show leg < spec.maxima.length by omega),
      List.getElem?_eq_getElem (show leg < spec.sell.length by omega)]
    obtain ⟨kill, hkill, hkillSound⟩ := @killPrice_sound value result.steps spec.maxima[leg]
      result.legs leg result.legs[leg] spec.sell[leg] hsteps (spec.scaled _ (List.getElem_mem _))
      (List.getElem?_eq_getElem hlt) hfill
    refine ⟨kill, hkill, fun fill maximum side hfill' hmaximum hside => ?_⟩
    rw [List.getElem?_eq_getElem hlt] at hfill'
    cases hfill'
    cases hmaximum
    cases hside
    exact hkillSound
  refine ⟨kills, hkills, ?_, ?_⟩
  · rw [← hall.length_eq, List.length_range, hlength]
  · intro leg fill maximum side kill hfill hmaximum hside hkill
    obtain ⟨hlt, heq⟩ := List.getElem?_eq_some_iff.mp hkill
    have hlt' : leg < (List.range result.legs.length).length := by
      rw [hall.length_eq]
      exact hlt
    have hsound := (List.forall₂_iff_get.mp hall).2 leg hlt' hlt
    simp only [List.get_eq_getElem, List.getElem_range, heq] at hsound
    exact hsound fill maximum side hfill hmaximum hside

theorem before_eq (h : FitsSpec spec ladders)
    (hsound : SizingSound spec ladders value sizing result) :
    result.before = ladders.map (·.head?) := by
  rw [hsound.priced.before_eq, ← List.map_fst_zip h.length.le, List.map_map]
  rw [List.map_fst_zip h.length.le]
  rfl

/-- A leg that has atoms has a best level. -/
theorem before_ne_none (h : FitsSpec spec ladders)
    (hsound : SizingSound spec ladders value sizing result) (hsteps : 0 < result.steps) :
    ∀ best ∈ result.before, best ≠ none := by
  rw [hsound.priced.before_eq]
  intro best hbest hnone
  obtain ⟨leg, hleg, rfl⟩ := List.mem_map.mp hbest
  have hempty := List.head?_eq_none_iff.mp hnone
  have hatoms := hsound.atoms
  rw [hsound.priced.legs_eq, legsOf, ← List.map_snd_zip h.length.ge, List.forall₂_map_left_iff,
    List.map_snd_zip h.length.ge, List.forall₂_map_right_iff, List.forall₂_same] at hatoms
  have hfilled := hatoms leg hleg
  have hpos := mul_pos hsteps (spec.positive _ (List.of_mem_zip hleg).2)
  rw [hempty] at hfilled
  have hnil : (fillOf [] (result.steps * leg.2)).filledAtoms ≤ 0 := min_le_right _ _
  omega

/-- What is worth a known positive integer. -/
theorem worth_iff (hsound : SizingSound spec ladders value sizing result) (hsteps : result.steps ≠ 0) :
    result.value.any (0 < ·) = true ↔
      ∃ worth, value result.steps result.legs = some worth ∧ 0 < worth := by
  rw [hsound.priced.value_eq, if_neg hsteps, valued, if_neg hsteps]
  simp [Option.any_eq_true]

theorem steps_ne_zero (hsound : SizingSound spec ladders value sizing result)
    (hserved : Served sizing result) : result.steps ≠ 0 := by
  unfold Served at hserved
  cases hmode : sizing.mode with
  | target steps =>
    rw [hmode] at hserved
    have := (hsound.most steps hmode).1
    simp only at hserved
    omega
  | edge =>
    rw [hmode] at hserved
    exact hserved

/-- A short sizing is not served, and one with steps that is not short is. -/
theorem served_iff (hsound : SizingSound spec ladders value sizing result) (hsteps : result.steps ≠ 0) :
    Served sizing result ↔ isShort sizing result = false := by
  unfold Served isShort
  cases hmode : sizing.mode with
  | target steps =>
    have := (hsound.most steps hmode).2
    simp only [decide_eq_false_iff_not]
    omega
  | edge => simp [hsteps]

theorem assessSound_refused {reason : FillState} {kills : Option (List (Option Int))}
    (hreason : reason ∈ noFillPrecedence)
    (h : ¬ ∃ prices, Tradeable spec ladders value sizing result prices) :
    AssessSound spec ladders value sizing result kills (some reason) where
  known := by
    intro r hr
    cases hr
    exact hreason
  refused := fun _ => h
  traded := by simp

/-- No sizing raises. -/
theorem assess_ok (h : FitsSpec spec ladders) (hsound : SizingSound spec ladders value sizing result) :
    ∃ assessed, assess sizing result value spec.maxima spec.sell = .ok assessed := by
  have hkills : ∃ kills, positiveKills result value spec.maxima spec.sell = .ok kills ∧
      ∀ prices, kills = some prices → KillsSound spec value result prices ∧ 0 < result.steps := by
    unfold positiveKills
    split_ifs with hpositive
    · have := hsound.nonneg
      have hsteps : 0 < result.steps := by omega
      obtain ⟨prices, hprices, hpricesSound⟩ := killPrices_sound hsound hsteps
      rw [hprices]
      refine ⟨some prices, rfl, fun prices' heq => ?_⟩
      cases heq
      exact ⟨hpricesSound, hsteps⟩
    · exact ⟨none, rfl, by simp⟩
  obtain ⟨kills, hrun, hprices⟩ := hkills
  unfold assess
  simp only [hrun, Except.ok_bind]
  split_ifs
  · exact ⟨_, rfl⟩
  · exact ⟨_, rfl⟩
  · exact ⟨_, rfl⟩
  · cases kills with
    | none => exact ⟨_, rfl⟩
    | some prices =>
      obtain ⟨hpricesSound, hsteps⟩ := hprices prices rfl
      have hlength : result.before.length = prices.length ∧ spec.sell.length = prices.length := by
        rw [before_eq h hsound, List.length_map, hpricesSound.length, FillSpec.sell, List.length_map]
        exact ⟨h.length, spec.legs.2.1⟩
      obtain ⟨any, hany, -⟩ := anyReached_eq hlength (before_ne_none h hsound hsteps)
      simp only [hany, Except.ok_bind]
      cases any <;> exact ⟨_, rfl⟩

theorem assess_sound (h : FitsSpec spec ladders) (hsound : SizingSound spec ladders value sizing result)
    (hrole : sizing.role = .governs) : ∃ kills reason,
      assess sizing result value spec.maxima spec.sell = .ok (kills, reason) ∧
        AssessSound spec ladders value sizing result kills reason := by
  by_cases hshort : isShort sizing result = true
  · refine ⟨none, some .depthShort, by simp [assess, hshort, hrole],
      assessSound_refused (by decide) fun ⟨prices, htrade⟩ => ?_⟩
    have hfalse := (served_iff hsound (steps_ne_zero hsound htrade.served)).mp htrade.served
    rw [hshort] at hfalse
    cases hfalse
  have hshort : isShort sizing result = false := by simpa using hshort
  by_cases hpositive : result.steps ≠ 0 ∧ result.value.any (0 < ·) = true
  · obtain ⟨hsteps, hany⟩ := hpositive
    have hworth := (worth_iff hsound hsteps).mp hany
    have hnonneg := hsound.nonneg
    obtain ⟨kills, hkills, hkillsSound⟩ := killPrices_sound hsound (by omega)
    have hvalue : ¬ (result.steps ≠ 0 ∧ result.value = none) := by
      intro hnone
      rw [hnone.2] at hany
      cases hany
    have hlength : result.before.length = kills.length ∧ spec.sell.length = kills.length := by
      rw [before_eq h hsound, List.length_map, hkillsSound.length, FillSpec.sell, List.length_map]
      exact ⟨h.length, spec.legs.2.1⟩
    obtain ⟨any, hreached, hiff⟩ := anyReached_eq hlength (before_ne_none h hsound (by omega))
    have hrun : assess sizing result value spec.maxima spec.sell =
        .ok (some kills, if any then some .nonpositive else none) := by
      have hpositiveKills : positiveKills result value spec.maxima spec.sell = .ok (some kills) := by
        rw [positiveKills, if_pos ⟨hsteps, hany⟩, hkills]
        rfl
      unfold assess
      simp only [hshort, Bool.false_eq_true, false_and, if_false, hpositiveKills, Except.ok_bind,
        if_neg hvalue, hreached]
      cases any <;> rfl
    rw [before_eq h hsound] at hiff
    cases any with
    | true =>
      refine ⟨_, _, hrun, assessSound_refused (by decide) fun ⟨prices, htrade⟩ => ?_⟩
      cases hkills.symm.trans htrade.prices.1
      cases hiff.mpr htrade.alive
    | false =>
      have htrade : Tradeable spec ladders value sizing result kills :=
        ⟨(served_iff hsound hsteps).mpr hshort, hworth, ⟨hkills, hkillsSound⟩, hiff.mp rfl⟩
      exact ⟨_, _, hrun, by simp, by simp, fun _ => ⟨kills, rfl, htrade⟩⟩
  · have hnone : positiveKills result value spec.maxima spec.sell = .ok none := by
      rw [positiveKills, if_neg hpositive]
      rfl
    have hno : ¬ ∃ prices, Tradeable spec ladders value sizing result prices := by
      intro ⟨prices, htrade⟩
      have hsteps := steps_ne_zero hsound htrade.served
      exact hpositive ⟨hsteps, (worth_iff hsound hsteps).mpr htrade.worth⟩
    by_cases hunknown : result.steps ≠ 0 ∧ result.value = none
    · refine ⟨none, some .valueUnknown, ?_, assessSound_refused (by decide) hno⟩
      unfold assess
      simp only [hshort, Bool.false_eq_true, false_and, if_false, hnone, Except.ok_bind,
        if_pos hunknown]
      rfl
    · refine ⟨none, some .nonpositive, ?_, assessSound_refused (by decide) hno⟩
      unfold assess
      simp only [hshort, Bool.false_eq_true, false_and, if_false, hnone, Except.ok_bind,
        if_neg hunknown]
      rfl

/-- What a sizing of the policy is priced and assessed at. -/
structure AssessedSound (policy : FillPolicy) (spec : FillSpec) (ladders : List PriceLadder)
    (value : Valuation) (sizing : FillSizing) (row : Assessed) : Prop where
  sizing_eq : row.sizing = sizing
  walked : walkSizing sizing ladders spec.units value policy.maxLevels = .ok row.result
  governs : sizing.role = .governs →
    AssessSound spec ladders value sizing row.result row.kills row.reason

theorem assessSizing_sound (h : FitsSpec spec ladders) (hmem : sizing ∈ policy.sizings) :
    ∃ row, assessSizing policy spec ladders value sizing = .ok row ∧
      AssessedSound policy spec ladders value sizing row := by
  obtain ⟨result, hwalk, hsound⟩ := @walkSizing_sound policy spec ladders value sizing h hmem
  unfold assessSizing
  rw [hwalk, Except.ok_bind]
  cases hrole : sizing.role with
  | governs =>
    obtain ⟨kills, reason, hassess, hassessed⟩ := assess_sound h hsound hrole
    rw [hassess, Except.ok_bind]
    exact ⟨⟨sizing, result, kills, reason⟩, rfl, rfl, hwalk, fun _ => hassessed⟩
  | records =>
    obtain ⟨assessed, hassess⟩ := assess_ok h hsound
    rw [hassess, Except.ok_bind]
    exact ⟨⟨sizing, result, assessed.1, assessed.2⟩, rfl, rfl, hwalk, fun hgoverns => by
      cases hrole.symm.trans hgoverns⟩

end Sizing

/-! ## Prices -/

/-- The kill prices that the governing sizings have for a leg. -/
def governingKills (fill : FillObject) (leg : Nat) : List (Option Int) :=
  (fill.results.filter (·.sizing.role = .governs)).map fun row =>
    ((row.killPrices.getD [])[leg]?).getD none

/-- A fill as it opens. -/
structure LiveFill (policy : FillPolicy) (spec : FillSpec) (ladders : List PriceLadder)
    (value : Valuation) (fill : FillObject) : Prop where
  rows : List.Forall₂ (fun sizing row => row.sizing = sizing ∧
    walkSizing sizing ladders spec.units value policy.maxLevels = .ok row.result) policy.sizings
    fill.results
  tightest : ∀ (leg : Nat) side, spec.sell[leg]? = some side →
    ∃ kill, fill.killPrices[leg]? = some kill ∧ IsTightest side (governingKills fill leg) kill
  uncrossed : crossed fill.killPrices spec.sources ladders = none
  unkilled : fill.killLeg = none ∧ fill.killBest = none

section Price

variable {policy : FillPolicy} {spec : FillSpec} {ladders : List PriceLadder} {value : Valuation}

theorem getElem?_tighten {effective kills : List (Option Int)} {sell : List Bool} {leg : Nat}
    {current kill : Option Int} {side : Bool} (hcurrent : effective[leg]? = some current)
    (hkill : kills[leg]? = some kill) (hside : sell[leg]? = some side) :
    (tighten effective kills sell)[leg]? = some (tighter current kill side) := by
  have hzip : (effective.zip kills)[leg]? = some (current, kill) :=
    List.getElem?_zip_eq_some.mpr ⟨hcurrent, hkill⟩
  unfold tighten
  rw [List.getElem?_zipWith, hzip, hside]

/-- The effective kill price of a leg is the fold over that leg's kill prices. -/
theorem getElem?_foldl_tighten {rows : List Assessed} {effective : List (Option Int)}
    {sell : List Bool} {leg : Nat} {current : Option Int} {side : Bool}
    (hcurrent : effective[leg]? = some current) (hside : sell[leg]? = some side)
    (hrows : ∀ row ∈ rows, leg < (row.kills.getD []).length) :
    (rows.foldl (fun effective row => tighten effective (row.kills.getD []) sell) effective)[leg]? =
      some ((rows.map fun row => ((row.kills.getD [])[leg]?).getD none).foldl
        (fun current kill => tighter current kill side) current) := by
  induction rows generalizing effective current with
  | nil => exact hcurrent
  | cons row rows ih =>
    have hlt := hrows row List.mem_cons_self
    have hkill := List.getElem?_eq_getElem hlt
    rw [List.foldl_cons, List.map_cons, List.foldl_cons, hkill, Option.getD_some]
    exact ih (getElem?_tighten hcurrent hkill hside) fun row hrow =>
      hrows row (List.mem_cons_of_mem _ hrow)

/-- Every precedence has a reason that is known, unless there is none. -/
theorem find?_reason_eq_none {rows : List Assessed}
    (h : ∀ row ∈ rows, ∀ r, row.reason = some r → r ∈ noFillPrecedence) :
    (noFillPrecedence.find? fun reason => rows.any (·.reason = some reason)) = none ↔
      ∀ row ∈ rows, row.reason = none := by
  rw [List.find?_eq_none]
  constructor
  · intro hnone row hrow
    cases hreason : row.reason with
    | none => rfl
    | some r =>
      refine absurd ?_ (hnone r (h row hrow r hreason))
      exact List.any_eq_true.mpr ⟨row, hrow, by simp [hreason]⟩
  · intro hall reason _ hany
    obtain ⟨row, hrow, heq⟩ := List.any_eq_true.mp hany
    simp [hall row hrow] at heq

theorem notReached_tightest {bests : List (Option (Int × Int))} {rows : List Assessed}
    {effective : List (Option Int)} (hrows : ∀ row ∈ rows, ∃ prices, row.kills = some prices ∧
      NotReached prices bests spec.sell ∧ prices.length = spec.units.length)
    (htightest : ∀ (leg : Nat) side, spec.sell[leg]? = some side → ∃ kill, effective[leg]? = some kill ∧
      IsTightest side (rows.map fun row => ((row.kills.getD [])[leg]?).getD none) kill) :
    NotReached effective bests spec.sell := by
  intro leg kill level side hkill hbest hside
  obtain ⟨kill', hkill', htight⟩ := htightest leg side hside
  cases hkill.symm.trans hkill'
  cases kill with
  | none => rfl
  | some k =>
    -- the tightest is the kill price of some row, which is not reached
    obtain ⟨row, hrow, heq⟩ := List.mem_map.mp (htight.mem (by simp))
    obtain ⟨prices, hprices, halive, -⟩ := hrows row hrow
    rw [hprices, Option.getD_some] at heq
    have hmem : prices[leg]? = some (some k) := by
      cases hat : prices[leg]? with
      | none =>
        rw [hat] at heq
        cases heq
      | some kill =>
        rw [hat] at heq
        exact congrArg some heq
    exact halive leg (some k) level side hmem hbest hside

theorem length_foldl_tighten {rows : List Assessed} {effective : List (Option Int)}
    {sell : List Bool} (hsell : sell.length = effective.length)
    (hrows : ∀ row ∈ rows, (row.kills.getD []).length = effective.length) :
    (rows.foldl (fun effective row => tighten effective (row.kills.getD []) sell) effective).length =
      effective.length := by
  induction rows generalizing effective with
  | nil => rfl
  | cons row rows ih =>
    have hrow := hrows row List.mem_cons_self
    have hlength : (tighten effective (row.kills.getD []) sell).length = effective.length := by
      rw [tighten, List.length_zipWith, List.length_zip]
      omega
    rw [List.foldl_cons, ih (hsell.trans hlength.symm) fun row hrow => ?_, hlength]
    rw [hlength]
    exact hrows row (List.mem_cons_of_mem _ hrow)

/-- The rows of the governing sizings, once all of them are tradeable. -/
theorem traded_of_mem {rows : List Assessed}
    (hall : List.Forall₂ (AssessedSound policy spec ladders value) policy.sizings rows)
    (htradeable : ∀ sizing ∈ policy.sizings, sizing.role = .governs →
      ∃ result kills, walkSizing sizing ladders spec.units value policy.maxLevels = .ok result ∧
        Tradeable spec ladders value sizing result kills)
    {row : Assessed} (hrow : row ∈ rows.filter (·.sizing.role = .governs)) :
    row.reason = none ∧ ∃ prices, row.kills = some prices ∧
      NotReached prices (ladders.map (·.head?)) spec.sell ∧ prices.length = spec.units.length := by
  obtain ⟨hmem, hrole⟩ := List.mem_filter.mp hrow
  obtain ⟨sizing, hsizing, hsound⟩ := hall.exists_of_mem_right hmem
  have hgoverns : sizing.role = .governs := by
    rw [← hsound.sizing_eq]
    exact of_decide_eq_true hrole
  obtain ⟨result, kills, hwalk, htrade⟩ := htradeable sizing hsizing hgoverns
  cases hsound.walked.symm.trans hwalk
  have hassess := hsound.governs hgoverns
  have hreason : row.reason = none := by
    by_contra hne
    exact hassess.refused hne ⟨kills, htrade⟩
  obtain ⟨prices, hprices, htraded⟩ := hassess.traded hreason
  exact ⟨hreason, prices, hprices, htraded.alive, htraded.prices.2.length⟩

theorem liveFill_of_rows (h : FitsSpec spec ladders) {rows : List Assessed}
    (hall : List.Forall₂ (AssessedSound policy spec ladders value) policy.sizings rows)
    (htradeable : ∀ sizing ∈ policy.sizings, sizing.role = .governs →
      ∃ result kills, walkSizing sizing ladders spec.units value policy.maxLevels = .ok result ∧
        Tradeable spec ladders value sizing result kills) :
    LiveFill policy spec ladders value
      { results := rows.map fun row => ⟨row.sizing, row.result, row.reason = none, row.kills⟩
        killPrices := (rows.filter (·.sizing.role = .governs)).foldl
          (fun effective row => tighten effective (row.kills.getD []) spec.sell)
          (ladders.map fun _ => none)
        killLeg := none, killBest := none } := by
  have htraded := fun row hrow => @traded_of_mem policy spec ladders value rows hall htradeable row hrow
  have hsell : spec.sell.length = (ladders.map fun _ => (none : Option Int)).length := by
    rw [FillSpec.sell, List.length_map, List.length_map, h.length, spec.legs.2.1]
  have hkills : ∀ row ∈ rows.filter (·.sizing.role = .governs),
      (row.kills.getD []).length = (ladders.map fun _ => (none : Option Int)).length := by
    intro row hrow
    obtain ⟨-, prices, hprices, -, hlength⟩ := htraded row hrow
    rw [hprices, Option.getD_some, hlength, List.length_map, h.length]
  have htightest : ∀ (leg : Nat) side, spec.sell[leg]? = some side → ∃ kill,
      ((rows.filter (·.sizing.role = .governs)).foldl
        (fun effective row => tighten effective (row.kills.getD []) spec.sell)
        (ladders.map fun _ => none))[leg]? = some kill ∧
      IsTightest side ((rows.filter (·.sizing.role = .governs)).map fun row =>
        ((row.kills.getD [])[leg]?).getD none) kill := by
    intro leg side hside
    obtain ⟨hlt, -⟩ := List.getElem?_eq_some_iff.mp hside
    rw [hsell] at hlt
    have hcurrent : (ladders.map fun _ => (none : Option Int))[leg]? = some none := by
      rw [List.getElem?_eq_getElem hlt, List.getElem_map]
    refine ⟨_, getElem?_foldl_tighten hcurrent hside fun row hrow => ?_,
      isTightest_of_none isTightest_foldl⟩
    rw [hkills row hrow]
    exact hlt
  refine ⟨?_, ?_, ?_, rfl, rfl⟩
  · rw [List.forall₂_map_right_iff]
    exact hall.imp fun sizing row hsound => ⟨hsound.sizing_eq, hsound.walked⟩
  · intro leg side hside
    obtain ⟨kill, hkill, htight⟩ := htightest leg side hside
    refine ⟨kill, hkill, ?_⟩
    rw [governingKills, List.filter_map, List.map_map]
    exact htight
  · refine (crossedFrom_eq_none ?_).mpr
      (notReached_tightest (fun row hrow => (htraded row hrow).2) htightest)
    rw [length_foldl_tighten hsell hkills, ← hsell, FillSpec.sell, List.length_map]
    exact ⟨rfl, h.length.trans spec.legs.2.1.symm⟩

/-- A priced fill is live just if every governing sizing is tradeable, and then no leg is crossed. -/
theorem price_sound (h : FitsSpec spec ladders) :
    ∃ priced, price policy spec ladders value = .ok priced ∧
      (priced.state = .live ↔ ∀ sizing ∈ policy.sizings, sizing.role = .governs →
        ∃ result kills, walkSizing sizing ladders spec.units value policy.maxLevels = .ok result ∧
          Tradeable spec ladders value sizing result kills) ∧
      (priced.state = .live → ∃ fill, priced.fill = some fill ∧
        LiveFill policy spec ladders value fill) ∧
      (priced.state ≠ .live → priced.fill = none) := by
  obtain ⟨rows, hrows, hall⟩ := exists_mapM_ok fun sizing hmem =>
    @assessSizing_sound policy spec ladders value sizing h hmem
  obtain ⟨governing, hgoverning, hgov⟩ := exists_mapM_ok (l := policy.sizings.filter (·.role = .governs))
    fun sizing hmem => @assessSizing_sound policy spec ladders value sizing h (List.mem_of_mem_filter hmem)
  have hassess : ∀ row ∈ governing, ∃ sizing ∈ policy.sizings, sizing.role = .governs ∧
      AssessedSound policy spec ladders value sizing row ∧
        AssessSound spec ladders value sizing row.result row.kills row.reason := by
    intro row hrow
    obtain ⟨sizing, hsizing, hsound⟩ := hgov.exists_of_mem_right hrow
    obtain ⟨hmem, hrole⟩ := List.mem_filter.mp hsizing
    have hrole := of_decide_eq_true hrole
    exact ⟨sizing, hmem, hrole, hsound, hsound.governs hrole⟩
  have hknown : ∀ row ∈ governing, ∀ r, row.reason = some r → r ∈ noFillPrecedence := by
    intro row hrow
    obtain ⟨sizing, -, -, -, hsound⟩ := hassess row hrow
    exact hsound.known
  -- no reason is found just if all governing sizings are tradeable
  have hnone : (noFillPrecedence.find? fun reason => governing.any (·.reason = some reason)) = none ↔
      ∀ sizing ∈ policy.sizings, sizing.role = .governs →
        ∃ result kills, walkSizing sizing ladders spec.units value policy.maxLevels = .ok result ∧
          Tradeable spec ladders value sizing result kills := by
    rw [find?_reason_eq_none hknown]
    constructor
    · intro hreasons sizing hsizing hrole
      obtain ⟨row, hrow, hsound⟩ := hgov.exists_of_mem_left
        (List.mem_filter.mpr ⟨hsizing, decide_eq_true hrole⟩)
      obtain ⟨prices, -, htrade⟩ := (hsound.governs hrole).traded (hreasons row hrow)
      exact ⟨row.result, prices, hsound.walked, htrade⟩
    · intro htradeable row hrow
      obtain ⟨sizing, hsizing, hrole, hsound, hassessed⟩ := hassess row hrow
      obtain ⟨result, kills, hwalk, htrade⟩ := htradeable sizing hsizing hrole
      cases hsound.walked.symm.trans hwalk
      by_contra hne
      exact hassessed.refused hne ⟨kills, htrade⟩
  unfold price
  rw [hgoverning, Except.ok_bind]
  cases hfind : noFillPrecedence.find? fun reason => governing.any (·.reason = some reason) with
  | some reason =>
    have hne : reason ≠ .live := by
      have hmem := List.mem_of_find?_eq_some hfind
      intro heq
      rw [heq] at hmem
      simp [noFillPrecedence] at hmem
    refine ⟨⟨reason, none⟩, rfl, iff_of_false hne fun htradeable => ?_, fun hlive => absurd hlive hne,
      fun _ => rfl⟩
    rw [hnone.mpr htradeable] at hfind
    cases hfind
  | none =>
    have htradeable := hnone.mp hfind
    simp only [hrows, Except.ok_bind]
    exact ⟨_, rfl, iff_of_true rfl htradeable, fun _ => ⟨_, rfl, liveFill_of_rows h hall htradeable⟩,
      fun hne => absurd rfl hne⟩

end Price

/-! ## Commits -/

namespace FillRun

section Commit

variable {policy : FillPolicy} {spec : FillSpec} {value : Int → Valuation} {run run' : FillRun}
  {commit : FillCommit} {episode : OpenFill}

@[simp] theorem episode_setState {time : Int} {next : Option (FillState × List Nat)} :
    (run.setState time next).episode = run.episode := by
  unfold setState charge
  cases run.state <;> cases next <;> simp only <;> (try split) <;> (try split) <;> rfl

@[simp] theorem closed_setState {time : Int} {next : Option (FillState × List Nat)} :
    (run.setState time next).closed = run.closed := by
  unfold setState charge
  cases run.state <;> cases next <;> simp only <;> (try split) <;> (try split) <;> rfl

@[simp] theorem episode_close {time : Int} {reason : EndReason} :
    (run.close time reason).episode = none := by
  unfold close
  split
  · assumption
  · split <;> rfl

theorem closed_close (h : run.episode = some episode) {time : Int} {reason : EndReason} :
    (run.close time reason).closed = run.closed ++
      if time ≤ episode.start then [] else [⟨episode.start, time, reason, episode.fill⟩] := by
  unfold close
  rw [h]
  simp only
  split <;> simp

/-- A pricing opens a fill that no leg of which is crossed, or none. -/
theorem reprice_sound (h : FitsSpec spec commit.ladders) (hnone : run.episode = none) :
    ∃ run', reprice policy spec value run commit = .ok run' ∧ run'.closed = run.closed ∧
      ∀ episode, run'.episode = some episode → commit.trigger = true ∧
        episode.start = commit.time ∧
        LiveFill policy spec commit.ladders (value commit.time) episode.fill := by
  unfold reprice
  split_ifs with htrigger hskip
  · exact ⟨_, rfl, by simp, by simp [hnone]⟩
  · exact ⟨_, rfl, rfl, by simp [hnone]⟩
  · obtain ⟨priced, hprice, -, hlive, hdead⟩ := @price_sound policy spec commit.ladders
      (value commit.time) h
    rw [hprice, Except.ok_bind]
    refine ⟨_, rfl, ?_, fun episode hepisode => ?_⟩
    · cases priced.fill <;> simp
    · by_cases hstate : priced.state = .live
      · obtain ⟨fill, hfill, hsound⟩ := hlive hstate
        rw [hfill, episode_setState] at hepisode
        cases hepisode
        exact ⟨by simpa using htrigger, rfl, hsound⟩
      · rw [hdead hstate, episode_setState, hnone] at hepisode
        cases hepisode

/-- What a commit does to an open fill: it stays as it is while the trigger is on and no leg is
    crossed, and otherwise ends. -/
def FillEnds (spec : FillSpec) (run run' : FillRun) (commit : FillCommit) (episode : OpenFill) :
    Prop :=
  match commit.trigger, crossed episode.fill.killPrices spec.sources commit.ladders with
  | true, none => run' = run
  | true, some (leg, best) => run'.closed = run.closed ++
      if commit.time ≤ episode.start then [] else [⟨episode.start, commit.time, .killPrice,
        (episode.killedAt leg best).fill⟩]
  | false, _ => run'.episode = none ∧ run'.closed = run.closed ++
      if commit.time ≤ episode.start then [] else [⟨episode.start, commit.time, offReason commit,
        episode.fill⟩]

theorem commitFill_sound (h : FitsSpec spec commit.ladders) :
    ∃ run', commitFill policy spec value run commit = .ok run' ∧
      (∀ episode, run'.episode = some episode →
        crossed episode.fill.killPrices spec.sources commit.ladders = none) ∧
      ∀ episode, run.episode = some episode → FillEnds spec run run' commit episode := by
  unfold commitFill
  cases hepisode : run.episode with
  | none =>
    obtain ⟨run', hrun, -, hlive⟩ := @reprice_sound policy spec value run commit h hepisode
    exact ⟨run', hrun, fun episode hopen => (hlive episode hopen).2.2.uncrossed, by simp⟩
  | some episode =>
    simp only [Option.some.injEq, forall_eq']
    unfold FillEnds
    cases htrigger : commit.trigger with
    | false =>
      obtain ⟨run', hrun, hclosed, hlive⟩ := @reprice_sound policy spec value
        (run.close commit.time (offReason commit)) commit h episode_close
      simp only [if_true]
      refine ⟨run', hrun, fun episode hopen => (hlive episode hopen).2.2.uncrossed, ?_, ?_⟩
      · cases hopen : run'.episode with
        | none => rfl
        | some episode =>
          have htrue := (hlive episode hopen).1
          rw [htrigger] at htrue
          cases htrue
      · rw [hclosed, closed_close hepisode]
    | true =>
      simp only [Bool.true_eq_false, if_false]
      cases hcrossed : crossed episode.fill.killPrices spec.sources commit.ladders with
      | none =>
        refine ⟨run, rfl, fun episode' hopen => ?_, rfl⟩
        cases hepisode.symm.trans hopen
        exact hcrossed
      | some hit =>
        obtain ⟨run', hrun, hclosed, hlive⟩ := @reprice_sound policy spec value
          ({ run with episode := some (episode.killedAt hit.1 hit.2) }.close commit.time .killPrice)
          commit h episode_close
        exact ⟨run', hrun, fun episode hopen => (hlive episode hopen).2.2.uncrossed,
          hclosed.trans (@closed_close { run with episode := some (episode.killedAt hit.1 hit.2) }
            (episode.killedAt hit.1 hit.2) rfl _ _)⟩

end Commit

end FillRun

def governTwo : FillSizing := ⟨"two", .governs, .target 2⟩
def recordEdge : FillSizing := ⟨"edge", .records, .edge⟩

theorem twoSizings_capped : (1 : Int) ≤ 2 := by decide

theorem twoSizings_targets : ∀ sizing ∈ [governTwo, recordEdge], ∀ steps,
    sizing.mode = .target steps → 0 < steps := by
  simp [governTwo, recordEdge]

theorem twoSizings_governed : ∃ sizing ∈ [governTwo, recordEdge], sizing.role = .governs := by
  simp [governTwo]

/-- One sizing that governs and one that is recorded. -/
def twoSizings : FillPolicy :=
  ⟨2, [governTwo, recordEdge], twoSizings_capped, twoSizings_targets, twoSizings_governed⟩

theorem twoLegs_shape : [(1 : Int), 2] ≠ [] ∧
    [FillSource.ask, .kalshiComplementAsk].length = [(1 : Int), 2].length ∧
    [(100 : Int), 100].length = [(1 : Int), 2].length := by decide

theorem twoLegs_positive : ∀ unit ∈ [(1 : Int), 2], 0 < unit := by decide

theorem twoLegs_scaled : ∀ maximum ∈ [(100 : Int), 100], 0 ≤ maximum := by decide

def twoLegs : FillSpec :=
  ⟨[.ask, .kalshiComplementAsk], [1, 2], [100, 100], twoLegs_shape, twoLegs_positive, twoLegs_scaled⟩

/-- A commit with two ladders of two levels. -/
def twoLadders : FillCommit :=
  ⟨0, none, true, [[(40, 5), (50, 10)], [(20, 8), (25, 6)]], [0, 0]⟩

end PredictionIndexer.Replay
