import PredictionIndexer.Engine.Reader
import PredictionIndexer.ForStd.Runs

/-!
# What the reader's checks establish of a window

`DeliveryChecks` keeps a few scalars of the deliveries behind it. `Observed` says what these
know of the whole list: it is in time order, deliveries of one time carry one tie value, and
every delivery before the run in progress is tagged with its time or not at all. `finish` settles
the run in progress, so a window that was read to its end is `Tagged` throughout.
-/

namespace PredictionIndexer.Engine

open Fallible LabelRuns

/-- The time of a delivery. -/
abbrev MeasuredDelivery.time (d : MeasuredDelivery) : Nat := d.header.visibleNs

/-- Its tie value. -/
abbrev MeasuredDelivery.tie (d : MeasuredDelivery) : Option Nat := d.header.visibleTieGroup

/-- A delivery of the run that `first` began. -/
def InRun (first : EventHeader) (d : MeasuredDelivery) : Prop :=
  d.time = first.visibleNs ∧ d.tie = first.visibleTieGroup

/-- What the checks know after the deliveries of `past`. -/
structure Observed (past : List MeasuredDelivery) (c : DeliveryChecks) : Prop where
  previous : c.previous = past.getLast?.map (·.header)
  follows : past.Pairwise (Advances MeasuredDelivery.time MeasuredDelivery.tie)
  last : ∀ d ∈ past.getLast?, ∃ first, c.runFirst = some first ∧ InRun first d
  tagged : ∀ d ∈ past, Tagged MeasuredDelivery.time MeasuredDelivery.tie d ∨
    ∃ first, c.runFirst = some first ∧ InRun first d

/-- The whole window in time order, with tie values that are the times. -/
structure VerifiedWindow (sources : List MeasuredDelivery) : Prop where
  follows : sources.Pairwise (Advances MeasuredDelivery.time MeasuredDelivery.tie)
  tagged : ∀ d ∈ sources, Tagged MeasuredDelivery.time MeasuredDelivery.tie d

theorem observed_nil : Observed [] {} := by
  constructor <;> simp

theorem validateTie_eq_ok {first : EventHeader} {crossLane : Bool} {u : Unit}
    (h : validateTie first crossLane = .ok u) :
    ∀ k, first.visibleTieGroup = some k → k = first.visibleNs := by
  intro k hk
  by_cases htie : first.visibleTieGroup = if crossLane then some first.visibleNs else none
  · rw [hk] at htie
    cases crossLane
    · cases htie
    · exact Option.some.inj htie
  · rw [validateTie, if_pos htie] at h
    cases h

namespace DeliveryChecks

section Steps

variable {c c' : DeliveryChecks} {h : EventHeader}

theorem admitLane_eq_ok {limits : ReadLimits} (hok : c.admitLane h limits = .ok c') :
    c'.previous = c.previous ∧ c'.runFirst = c.runFirst := by
  unfold admitLane at hok
  split at hok
  · cases hok
    exact ⟨rfl, rfl⟩
  · split at hok
    · cases hok
    · obtain ⟨_, _, hok⟩ := Except.bind_eq_ok.mp hok
      cases hok
      exact ⟨rfl, rfl⟩

theorem observeLane_eq_ok {limits : ReadLimits} (hok : c.observeLane h limits = .ok c') :
    c'.previous = c.previous ∧ c'.runFirst = c.runFirst := by
  obtain ⟨count, _, hok⟩ := Except.bind_eq_ok.mp hok
  obtain ⟨c₁, hadmit, hok⟩ := Except.bind_eq_ok.mp hok
  have hframe := admitLane_eq_ok hadmit
  dsimp only at hok
  split at hok
  · cases hok
  · cases hok
    exact hframe

theorem observeOrder_eq_ok {m : DerivativeMetadata} {u : Unit}
    (hok : c.observeOrder h m = .ok u) : ∀ p ∈ c.previous, p.visibleNs ≤ h.visibleNs := by
  intro p hp
  unfold observeOrder at hok
  rw [Option.mem_def.mp hp] at hok
  dsimp only at hok
  split at hok
  · cases hok
  · split at hok
    · cases hok
    · split at hok
      · cases hok
      · omega

/-- The run before `h` is over, and settled, or it is at the time of `h`. -/
theorem closeRun_eq_ok (hok : c.closeRun h = .ok c') :
    (c' = c ∧ ∀ first ∈ c.runFirst, first.visibleNs = h.visibleNs) ∨
      (c' = { c with runFirst := none } ∧ ∃ first, c.runFirst = some first ∧
        first.visibleNs ≠ h.visibleNs ∧
        ∀ k, first.visibleTieGroup = some k → k = first.visibleNs) := by
  unfold closeRun at hok
  split at hok
  · next hrun =>
    cases hok
    exact .inl ⟨rfl, by simp [hrun]⟩
  · next first hrun =>
    split at hok
    · next hne =>
      obtain ⟨_, htie, hok⟩ := Except.bind_eq_ok.mp hok
      cases hok
      exact .inr ⟨rfl, first, hrun, hne, validateTie_eq_ok htie⟩
    · next heq =>
      cases hok
      refine .inl ⟨rfl, ?_⟩
      simpa [hrun] using heq

/-- `h` is in the run in progress afterwards. -/
theorem joinRun_eq_ok (hok : c.joinRun h = .ok c') :
    (c.runFirst = none ∧ c'.runFirst = some h) ∨
      ∃ first, c.runFirst = some first ∧ c'.runFirst = some first ∧
        first.visibleTieGroup = h.visibleTieGroup := by
  unfold joinRun at hok
  split at hok
  · next hrun =>
    cases hok
    exact .inl ⟨hrun, rfl⟩
  · next first hrun =>
    refine .inr ⟨first, hrun, ?_⟩
    split at hok
    · cases hok
    · next htie =>
      simp only [ne_eq, not_not] at htie
      obtain ⟨_, _, hok⟩ := Except.bind_eq_ok.mp hok
      cases hok
      exact ⟨hrun, htie⟩

theorem chargeRun_eq_ok {d : MeasuredDelivery} {limits : ReadLimits}
    (hok : c.chargeRun d limits = .ok c') : c'.runFirst = c.runFirst := by
  unfold chargeRun at hok
  split at hok
  · obtain ⟨_, _, hok⟩ := Except.bind_eq_ok.mp hok
    obtain ⟨_, _, hok⟩ := Except.bind_eq_ok.mp hok
    cases hok
    rfl
  · cases hok
    rfl

end Steps

/-- One delivery more. -/
theorem observe_observed {past : List MeasuredDelivery} {c c' : DeliveryChecks}
    {d : MeasuredDelivery} {m : DerivativeMetadata} {limits : ReadLimits} (hpast : Observed past c)
    (hok : c.observe d m limits = .ok c') : Observed (past ++ [d]) c' := by
  obtain ⟨c₁, hlane, hok⟩ := Except.bind_eq_ok.mp hok
  obtain ⟨_, horder, hok⟩ := Except.bind_eq_ok.mp hok
  obtain ⟨c₂, hclose, hok⟩ := Except.bind_eq_ok.mp hok
  obtain ⟨c₃, hjoin, hok⟩ := Except.bind_eq_ok.mp hok
  obtain ⟨c₄, hcharge, hok⟩ := Except.bind_eq_ok.mp hok
  cases hok
  obtain ⟨hprevious₁, hrun₁⟩ := observeLane_eq_ok hlane
  have hrun₁ : c₁.runFirst = c.runFirst := hrun₁
  have hrun₄ := chargeRun_eq_ok hcharge
  -- The predecessor is not later than `d`, so nothing of the past is.
  have hlater : ∀ a ∈ past.getLast?, a.time ≤ d.time := by
    intro a ha
    apply observeOrder_eq_ok horder
    rw [hprevious₁, hpast.previous, Option.mem_def.mp ha]
    rfl
  -- The run that is in progress with `d` in it.
  obtain ⟨first, hfirst, hd, hold⟩ : ∃ first, c₄.runFirst = some first ∧ InRun first d ∧
      ∀ f, c.runFirst = some f → (f = first) ∨
        (f.visibleNs ≠ d.time ∧ ∀ k, f.visibleTieGroup = some k → k = f.visibleNs) := by
    rcases closeRun_eq_ok hclose with ⟨rfl, hsame⟩ | ⟨rfl, f, hf, hne, htie⟩
    · rcases joinRun_eq_ok hjoin with ⟨hnone, hrun₃⟩ | ⟨first, hsome, hrun₃, htie⟩
      · refine ⟨d.header, hrun₄.trans hrun₃, ⟨rfl, rfl⟩, fun f hf => ?_⟩
        rw [← hrun₁, hnone] at hf
        cases hf
      · refine ⟨first, hrun₄.trans hrun₃, ⟨(hsame first hsome).symm, htie.symm⟩, fun f hf => ?_⟩
        rw [← hrun₁, hsome] at hf
        exact .inl (Option.some.inj hf).symm
    · rcases joinRun_eq_ok hjoin with ⟨_, hrun₃⟩ | ⟨_, hsome, _⟩
      · refine ⟨d.header, hrun₄.trans hrun₃, ⟨rfl, rfl⟩, fun g hg => ?_⟩
        rw [← hrun₁, hf] at hg
        obtain rfl := Option.some.inj hg
        exact .inr ⟨hne, htie⟩
      · cases hsome
  constructor
  case previous => simp
  case last => simpa using ⟨first, hfirst, hd⟩
  case tagged =>
    intro a ha
    rcases List.mem_append.mp ha with ha | ha
    · rcases hpast.tagged a ha with htag | ⟨f, hf, haf⟩
      · exact .inl htag
      · rcases hold f hf with rfl | ⟨_, htie⟩
        · exact .inr ⟨f, hfirst, haf⟩
        · refine .inl fun k hk => ?_
          rw [haf.2] at hk
          exact (htie k hk).trans haf.1.symm
    · obtain rfl := List.mem_singleton.mp ha
      exact .inr ⟨first, hfirst, hd⟩
  case follows =>
    refine List.pairwise_append.mpr ⟨hpast.follows, List.pairwise_singleton _ _, fun a ha b hb => ?_⟩
    obtain rfl := List.mem_singleton.mp hb
    -- `z` ends the past: it is in the run in progress, and `a` is not later than `z`.
    obtain ⟨p, z, rfl⟩ : ∃ p z, past = p ++ [z] :=
      (List.eq_nil_or_concat' past).resolve_left (List.ne_nil_of_mem ha)
    obtain ⟨f, hf, hz⟩ := hpast.last z (by simp)
    have hzb : z.time ≤ b.time := hlater z (by simp)
    have haz : a.time ≤ z.time ∧ (a.time = z.time → a.tie = z.tie) := by
      rcases List.mem_append.mp ha with ha | ha
      · exact (List.pairwise_append.mp hpast.follows).2.2 a ha z (by simp)
      · obtain rfl := List.mem_singleton.mp ha
        exact ⟨le_rfl, fun _ => rfl⟩
    refine ⟨haz.1.trans hzb, fun heq => ?_⟩
    have hza : a.time = z.time := le_antisymm haz.1 (heq ▸ hzb)
    rcases hold f hf with rfl | ⟨hne, _⟩
    · exact (haz.2 hza).trans (hz.2.trans hd.2.symm)
    · exact absurd (hz.1.symm.trans (hza.symm.trans heq)) hne

/-- The end of the window settles the run in progress. -/
theorem finish_verified {past : List MeasuredDelivery} {c : DeliveryChecks}
    {m : DerivativeMetadata} {u : Unit} (hpast : Observed past c) (hok : c.finish m = .ok u) :
    VerifiedWindow past := by
  refine ⟨hpast.follows, fun d hd => ?_⟩
  rcases hpast.tagged d hd with htag | ⟨first, hfirst, hrun⟩
  · exact htag
  · intro k hk
    unfold finish at hok
    rw [hfirst] at hok
    obtain ⟨_, htie, _⟩ := Except.bind_eq_ok.mp hok
    rw [hrun.2] at hk
    exact (validateTie_eq_ok htie k hk).trans hrun.1.symm

end DeliveryChecks

end PredictionIndexer.Engine
