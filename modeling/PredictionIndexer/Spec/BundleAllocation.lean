import PredictionIndexer.ForStd.Greedy
import PredictionIndexer.Spec.ContinuityHold

/-!
# Bundle-atomic allocation

An allocation is told by the bundles it has selected (`claims`): every budget it has used and every
target it emits is a leg of one of them (`Tallied`), since a bundle is only added with new legs. Why
a candidate is refused is then a question about the bundles in front of it (`refusal`).

## Key results

- `allocation_sound`: budgets, targets and rejections of a selection, bundle by bundle
-/

namespace PredictionIndexer.Targeter

/-! ## Bundles in front -/

/-- What bundles use of a venue's budget. A bundle is given by its legs. -/
def usage (before : List (List Leg)) (v : Venue) : Nat :=
  (before.map fun legs => subscriptions legs v).sum

abbrev LimitReached (s : Strategy) (before : List (List Leg)) : Prop :=
  s.maximumBundles ≤ before.length

/-- A market of the candidate is allocated already. -/
abbrev Collides (before : List (List Leg)) (c : Candidate) : Prop :=
  ∃ l ∈ c.legs, ∃ m ∈ before.flatten, m.targetId = l.targetId

abbrev MarketsExceeded (s : Strategy) (before : List (List Leg)) (c : Candidate) : Prop :=
  s.maximumMarkets.any (fun limit => before.flatten.length + c.eligibleMarkets.length > limit) = true

/-- The candidate does not fit a venue's budget besides what is used. -/
abbrev BudgetExceeded (s : Strategy) (used : Venue → Nat) (c : Candidate) : Prop :=
  ∃ v ∈ supportedVenues, s.targetBudgets v < used v + subscriptions c.legs v

/-- A candidate that only a venue's budget keeps out. -/
structure BudgetRejection (s : Strategy) (before : List (List Leg)) (c : Candidate) : Prop where
  limit : ¬ LimitReached s before
  apart : ¬ Collides before c
  markets : ¬ MarketsExceeded s before c
  budget : BudgetExceeded s (usage before) c

/-! ## The claims of a selection -/

/-- What a selection emits, against its budgets and its bundles. -/
structure Emission (s : Strategy) (r : SelectionResult) : Prop where
  used : ∀ v, r.budgetUsed v = ((r.targets v).map (·.terms.subscriptionIds.length)).sum
  within : ∀ v, r.budgetUsed v ≤ s.targetBudgets v
  once : (supportedVenues.flatMap fun v => (r.targets v).map (·.targetId)).Nodup
  bundles : r.selected.length + r.retained.length ≤ s.maximumBundles
  whole : ∀ c ∈ r.selected, ∀ l ∈ c.legs,
    ⟨l.targetId, c.bundleId, l.terms, c.score⟩ ∈ r.targets l.venue

/-- The bundles of a selection that have one of the IDs. -/
def allocated (r : SelectionResult) (ids : List String) : List (List Leg) :=
  (r.retained.filter (·.bundleId ∈ ids)).map (·.legs) ++
    (r.selected.filter (·.bundleId ∈ ids)).map (·.legs)

/-- The prior bundles that a strategy reads. -/
def heldPrior (s : Strategy) (prior : ContinuitySet) : ContinuitySet :=
  if s.continuityHoldEnabled then prior else ⟨[], List.nodup_nil, List.nodup_nil⟩

section Claims

variable (s : Strategy) (ranking : Candidate → Candidate → Prop) [DecidableRel ranking] (now : Int)
  (candidates : List Candidate) (prior : ContinuitySet)

/-- The IDs of the protected bundles, in the order of their allocation. -/
def protectedIds : List String := (survivors s now (heldPrior s prior)).map (·.bundleId)

/-- The IDs in the order in which their bundles are allocated. -/
def allocationOrder : List String :=
  protectedIds s now prior ++
    (additive s now (heldPrior s prior).bundles (ranked ranking candidates)).map (·.bundleId)

/-- A protected bundle of the candidate's ID is retained in its place. -/
def Superseded (c : Candidate) : Prop :=
  ∃ b ∈ survivors s now (heldPrior s prior), b.bundleId = c.bundleId ∧
    heldCandidate (ranked ranking candidates) b = none

/-- The candidate is refused, and `before` are the bundles allocated before its turn. -/
def RefusedAfter (c : Candidate) (before : List (List Leg)) : Prop :=
  ((selectTargets s ranking now candidates prior.bundles).allocationRejections
      c.bundleId).isSome ∧
    ∃ earlier later,
      allocationOrder s ranking now candidates prior = earlier ++ c.bundleId :: later ∧
        before = allocated (selectTargets s ranking now candidates prior.bundles) earlier

/-- A refusal is displaced when the candidate would fit besides what is not protected. -/
def DisplacedExactly (c : Candidate) (before : List (List Leg)) : Prop :=
  (selectTargets s ranking now candidates prior.bundles).allocationRejections c.bundleId =
      some .displacedByContinuityHold ↔
    ¬ BudgetExceeded s (fun v => usage before v - usage (allocated
      (selectTargets s ranking now candidates prior.bundles) (protectedIds s now prior)) v) c

/-- The allocation as it is described: each candidate has one outcome, and each refusal its cause. -/
structure Described : Prop
    extends Emission s (selectTargets s ranking now candidates prior.bundles) where
  settled : ∀ c ∈ ranked ranking candidates,
    (c ∈ (selectTargets s ranking now candidates prior.bundles).selected ∧
        ¬ Superseded s ranking now candidates prior c ∧
        (selectTargets s ranking now candidates prior.bundles).allocationRejections c.bundleId =
          none) ∨
      (c ∉ (selectTargets s ranking now candidates prior.bundles).selected ∧
        Superseded s ranking now candidates prior c ∧
        (selectTargets s ranking now candidates prior.bundles).allocationRejections c.bundleId =
          none) ∨
      (c ∉ (selectTargets s ranking now candidates prior.bundles).selected ∧
        ¬ Superseded s ranking now candidates prior c ∧
        (selectTargets s ranking now candidates prior.bundles).allocationRejections c.bundleId ≠
          none)
  refused : ∀ c ∈ ranked ranking candidates, ∀ before,
    RefusedAfter s ranking now candidates prior c before →
      LimitReached s before ∨ Collides before c ∨ MarketsExceeded s before c ∨
        BudgetExceeded s (usage before) c
  displaced : ∀ c ∈ ranked ranking candidates, ∀ before,
    RefusedAfter s ranking now candidates prior c before → BudgetRejection s before c →
      DisplacedExactly s ranking now candidates prior c before

/-- The allocation as it is. A superseded candidate shares its ID's entry with the prior bundle, and
    a protected bundle that does not fit is trimmed, whatever stands in its way. -/
structure Sound : Prop
    extends Emission s (selectTargets s ranking now candidates prior.bundles) where
  settled : ∀ c ∈ ranked ranking candidates, ¬ Superseded s ranking now candidates prior c →
    (c ∈ (selectTargets s ranking now candidates prior.bundles).selected ↔
      (selectTargets s ranking now candidates prior.bundles).allocationRejections c.bundleId = none)
  superseded : ∀ c ∈ ranked ranking candidates, Superseded s ranking now candidates prior c →
    c ∉ (selectTargets s ranking now candidates prior.bundles).selected ∧
      ((∃ b ∈ (selectTargets s ranking now candidates prior.bundles).retained,
          b.bundleId = c.bundleId) ↔
        (selectTargets s ranking now candidates prior.bundles).allocationRejections c.bundleId =
          none)
  refused : ∀ c ∈ ranked ranking candidates, ¬ Superseded s ranking now candidates prior c →
    ∀ before, RefusedAfter s ranking now candidates prior c before →
      LimitReached s before ∨ Collides before c ∨ MarketsExceeded s before c ∨
        BudgetExceeded s (usage before) c
  displaced : ∀ c ∈ ranked ranking candidates, c.bundleId ∉ protectedIds s now prior →
    ∀ before, RefusedAfter s ranking now candidates prior c before → BudgetRejection s before c →
      DisplacedExactly s ranking now candidates prior c before
  trimmed : ∀ id ∈ protectedIds s now prior,
    (selectTargets s ranking now candidates prior.bundles).allocationRejections id ≠ none →
      (selectTargets s ranking now candidates prior.bundles).allocationRejections id =
        some .continuityBudgetTrimmed

end Claims

/-! ## Legs in front -/

theorem usage_append (xs ys : List (List Leg)) (v : Venue) :
    usage (xs ++ ys) v = usage xs v + usage ys v := by
  simp [usage]

theorem usage_perm {xs ys : List (List Leg)} (h : xs.Perm ys) (v : Venue) :
    usage xs v = usage ys v :=
  (h.map _).sum_eq

/-- The legs of a venue have their IDs to themselves. -/
theorem mem_targetIds_iff {legs : List Leg} {l : Leg} :
    l.targetId ∈ (legs.filter (·.venue = l.venue)).map (·.targetId) ↔
      ∃ m ∈ legs, m.targetId = l.targetId := by
  simp only [List.mem_map, List.mem_filter, decide_eq_true_eq]
  constructor
  · rintro ⟨m, ⟨hm, -⟩, hid⟩
    exact ⟨m, hm, hid⟩
  · rintro ⟨m, hm, hid⟩
    exact ⟨m, ⟨hm, (Leg.targetId_inj hid).1⟩, hid⟩

/-- Every leg is of one venue. -/
theorem sum_venues (legs : List Leg) :
    (supportedVenues.map fun v => (legs.filter (·.venue = v)).length).sum = legs.length := by
  induction legs with
  | nil => rfl
  | cons l legs ih =>
    simp only [supportedVenues, List.map_cons, List.map_nil, List.sum_cons, List.sum_nil] at ih ⊢
    cases hv : l.venue <;> simp [hv] <;> omega

/-! ## What an allocation tells -/

namespace Allocation

/-- The bundles that are selected. -/
def claims (a : Allocation) : List (List Leg) :=
  a.selectedRetained.map (·.legs) ++ a.selected.map (·.legs)

/-- The counters and targets of an allocation are those of its bundles. -/
structure Tallied (a : Allocation) : Prop where
  used : ∀ v, a.budgetUsed v = usage a.claims v
  ids : ∀ v, (a.selectedTargetIds v).Perm
    ((a.claims.flatten.filter (·.venue = v)).map (·.targetId))
  emitted : ∀ v, (a.targets v).map (·.targetId) = a.selectedTargetIds v
  paid : ∀ v, ((a.targets v).map (·.terms.subscriptionIds.length)).sum = a.budgetUsed v
  distinct : ∀ v, (a.selectedTargetIds v).Nodup
  whole : ∀ c ∈ a.selected, ∀ l ∈ c.legs,
    ⟨l.targetId, c.bundleId, l.terms, c.score⟩ ∈ a.targets l.venue

theorem bundleCount_eq (a : Allocation) : a.bundleCount = a.claims.length := by
  simp only [bundleCount, claims, List.length_append, List.length_map]
  omega

/-- The selection of a bundle with new legs. -/
theorem Tallied.select {a b : Allocation} (h : a.Tallied) {bundleId : String} {score : ℚ}
    {legs : List Leg} (hfresh : a.Fresh legs) (hused : b.budgetUsed = a.budgetUsed)
    (hids : b.selectedTargetIds = a.selectedTargetIds) (htargets : b.targets = a.targets)
    (hclaims : b.claims.Perm (a.claims ++ [legs]))
    (hwhole : ∀ c ∈ b.selected, c ∈ a.selected ∨
      c.legs = legs ∧ c.bundleId = bundleId ∧ c.score = score) :
    (b.addLegs bundleId score legs).Tallied := by
  have hnew : b.Fresh legs := ⟨hfresh.1, by rw [hids]; exact hfresh.2⟩
  have hframe := b.addLegs_frame bundleId score legs
  have hadded := b.addLegs_fresh bundleId score hnew
  have hsame : (b.addLegs bundleId score legs).claims = b.claims := by
    rw [claims, claims, hframe.1, hframe.2.1]
  exact {
    used := fun v => by
      rw [(hadded v).2.1, hused, h.used, hsame, usage_perm hclaims, usage_append]
      simp [usage]
    ids := fun v => by
      rw [(hadded v).1, hids, hsame]
      refine ((h.ids v).append_right _).trans ?_
      rw [← List.map_append, ← List.filter_append]
      refine ((List.Perm.filter _ ?_).map _)
      simpa using hclaims.flatten.symm
    emitted := fun v => by
      rw [(hadded v).2.2, (hadded v).1, htargets, hids, List.map_append, h.emitted, List.map_map]
      rfl
    paid := fun v => by
      rw [(hadded v).2.2, (hadded v).2.1, htargets, hused, List.map_append, List.sum_append,
        h.paid, List.map_map]
      rfl
    distinct := fun v => by
      rw [(hadded v).1, hids, List.nodup_append]
      refine ⟨h.distinct v, ((List.filter_sublist.map _).nodup hfresh.1), ?_⟩
      intro id hid id' hid' heq
      obtain ⟨l, hl, rfl⟩ := List.mem_map.mp hid'
      obtain ⟨hmem, hvenue⟩ := List.mem_filter.mp hl
      have hv : l.venue = v := of_decide_eq_true hvenue
      exact hfresh.2 l hmem (by rw [hv, ← heq]; exact hid)
    whole := fun c hc l hl => by
      rw [hframe.1] at hc
      rw [(hadded l.venue).2.2, htargets, List.mem_append]
      rcases hwhole c hc with hc | ⟨rfl, rfl, rfl⟩
      · exact .inl (h.whole c hc l hl)
      · exact .inr (List.mem_map.mpr ⟨l, List.mem_filter.mpr ⟨hl, by simp⟩, rfl⟩) }

end Allocation

theorem Allocation.addLegs_rejections (a : Allocation) (bundleId : String) (score : ℚ)
    (legs : List Leg) :
    (a.addLegs bundleId score legs).allocationRejections = a.allocationRejections := by
  induction legs generalizing a with
  | nil => rfl
  | cons l legs ih =>
    refine (ih (a.addLeg bundleId score l)).trans ?_
    unfold addLeg
    split <;> rfl

/-! ## The protected bundles -/

/-- The allocation after the protected bundles of `seen`, of which it keeps `kept`. -/
structure Protects (ranked : List Candidate) (initial : String → Option Disposition)
    (a : Allocation) (seen kept : List ContinuityBundle) : Prop
    extends Reaches initial a seen kept where
  tallied : a.Tallied
  selected : a.selected = kept.filterMap (heldCandidate ranked)
  retained : a.selectedRetained = kept.filter fun b => (heldCandidate ranked b).isNone
  rejections : ∀ id, a.allocationRejections id =
    if ∃ b ∈ seen, b.bundleId = id ∧ b ∉ kept then some .continuityBudgetTrimmed else none

theorem protects_start (ranked : List Candidate) (initial : String → Option Disposition) :
    Protects ranked initial { continuityDispositions := initial } [] [] where
  toReaches := reaches_start initial
  tallied := {
    used := fun _ => rfl
    ids := fun _ => List.Perm.refl _
    emitted := fun _ => rfl
    paid := fun _ => rfl
    distinct := fun _ => List.nodup_nil
    whole := fun _ h => nomatch h }
  selected := rfl
  retained := rfl
  rejections _ := by simp

section ProtectStep

variable {s : Strategy} {ranked : List Candidate} {initial : String → Option Disposition}
  {a : Allocation} {seen kept : List ContinuityBundle} {b : ContinuityBundle}

/-- A held candidate has its bundle's ID. -/
theorem bundleId_of_held {c : Candidate} (h : heldCandidate ranked b = some c) :
    c.bundleId = b.bundleId := by
  have hfound := List.find?_some (heldCandidate_eq_some.mp h).1
  exact of_decide_eq_true hfound

theorem Protects.keep (h : Protects ranked initial a seen kept)
    (hb : b.bundleId ∉ seen.map (·.bundleId)) (hfresh : a.Fresh (entryOf ranked b).legs)
    (hfits : fitsAfter s kept b = true) :
    Protects ranked initial (a.protect s (entryOf ranked b)) (seen ++ [b]) (kept ++ [b]) := by
  have hguard := h.fits_iff (s := s) hfresh
  rw [hfits, Bool.not_true] at hguard
  have hreaches := h.toReaches.keep hb hfresh hfits
  cases hheld : heldCandidate ranked b with
  | some c =>
    have he : entryOf ranked b = ⟨b.score, b.bundleId, .inl c⟩ := by simp only [entryOf, hheld]
    rw [he] at hguard hreaches hfresh ⊢
    have heq : a.protect s ⟨b.score, b.bundleId, .inl c⟩ =
        { a with selected := a.selected ++ [c] }.addLegs b.bundleId c.score c.legs :=
      if_neg (ne_true_of_eq_false hguard)
    rw [heq] at hreaches ⊢
    have hframe := { a with selected := a.selected ++ [c] }.addLegs_frame b.bundleId c.score c.legs
    exact {
      toReaches := hreaches
      tallied := h.tallied.select hfresh rfl rfl rfl
        (List.Perm.of_eq (by simp [Allocation.claims])) fun d hd => by
          rw [List.mem_append, List.mem_singleton] at hd
          rcases hd with hd | rfl
          · exact .inl hd
          · exact .inr ⟨rfl, bundleId_of_held hheld, rfl⟩
      selected := by rw [hframe.1, h.selected]; simp [hheld]
      retained := by rw [hframe.2.1, h.retained]; simp [hheld]
      rejections := fun id => by
        rw [Allocation.addLegs_rejections, h.rejections id]
        exact if_congr (listed_keep hb id).symm rfl rfl }
  | none =>
    have he : entryOf ranked b = ⟨b.score, b.bundleId, .inr b⟩ := by simp only [entryOf, hheld]
    rw [he] at hguard hreaches hfresh ⊢
    have heq : a.protect s ⟨b.score, b.bundleId, .inr b⟩ =
        { a with selectedRetained := a.selectedRetained ++ [b] }.addLegs b.bundleId b.score
          b.legs :=
      if_neg (ne_true_of_eq_false hguard)
    rw [heq] at hreaches ⊢
    have hframe := { a with selectedRetained := a.selectedRetained ++ [b] }.addLegs_frame
      b.bundleId b.score b.legs
    exact {
      toReaches := hreaches
      tallied := h.tallied.select hfresh rfl rfl rfl (by
          simp only [Allocation.claims, List.map_append, List.map_cons, List.map_nil,
            List.append_assoc]
          exact List.Perm.append_left _ List.perm_append_comm) fun d hd => .inl hd
      selected := by rw [hframe.1, h.selected]; simp [hheld]
      retained := by rw [hframe.2.1, h.retained]; simp [hheld]
      rejections := fun id => by
        rw [Allocation.addLegs_rejections, h.rejections id]
        exact if_congr (listed_keep hb id).symm rfl rfl }

theorem Protects.trim (h : Protects ranked initial a seen kept)
    (hb : b.bundleId ∉ seen.map (·.bundleId)) (hfresh : a.Fresh (entryOf ranked b).legs)
    (hfits : fitsAfter s kept b = false) :
    Protects ranked initial (a.protect s (entryOf ranked b)) (seen ++ [b]) kept := by
  have hguard := h.fits_iff (s := s) hfresh
  rw [hfits, Bool.not_false] at hguard
  have hreaches := h.toReaches.trim hb hfresh hfits
  have heq : a.protect s (entryOf ranked b) =
      (a.reject b.bundleId .continuityBudgetTrimmed).dispose b.bundleId
        .continuityBudgetTrimmed := by
    unfold Allocation.protect
    exact if_pos hguard
  rw [heq] at hreaches ⊢
  have hbkept : b ∉ kept := fun hmem => hb (List.mem_map_of_mem (h.sub.subset hmem))
  have htallied := h.tallied
  exact {
    toReaches := hreaches
    tallied := ⟨htallied.used, htallied.ids, htallied.emitted, htallied.paid, htallied.distinct,
      htallied.whole⟩
    selected := h.selected
    retained := h.retained
    rejections := fun id => by
      simp only [Allocation.dispose, Allocation.reject]
      by_cases hid : id = b.bundleId
      · subst hid
        rw [Function.update_self, if_pos ⟨b, by simp, rfl, hbkept⟩]
      · rw [Function.update_of_ne hid, h.rejections]
        exact if_congr (listed_trim hid).symm rfl rfl }

end ProtectStep

/-- What is kept stays within the budgets and the bundle limit. -/
theorem kept_within (s : Strategy) (bundles : List ContinuityBundle) {kept : List ContinuityBundle}
    (h : (∀ v, usedBy kept v ≤ s.targetBudgets v) ∧ kept.length ≤ s.maximumBundles) :
    (∀ v, usedBy (bundles.foldl (keepNext s) kept) v ≤ s.targetBudgets v) ∧
      (bundles.foldl (keepNext s) kept).length ≤ s.maximumBundles := by
  induction bundles generalizing kept with
  | nil => exact h
  | cons b bundles ih =>
    refine ih ?_
    unfold keepNext
    split
    · rename_i hfits
      simp only [fitsAfter, Bool.and_eq_true, List.all_eq_true, decide_eq_true_eq] at hfits
      refine ⟨fun v => ?_, ?_⟩
      · simpa [usedBy] using hfits.1 v (mem_supportedVenues v)
      · rw [List.length_append, List.length_singleton]
        omega
    · exact h

/-- The legs of bundles, of those first that no candidate is held for. -/
def claimed (ranked : List Candidate) (kept : List ContinuityBundle) : List (List Leg) :=
  (kept.filter fun b => (heldCandidate ranked b).isNone).map (·.legs) ++
    (kept.filterMap (heldCandidate ranked)).map (·.legs)

theorem claimed_tally (ranked : List Candidate) (kept : List ContinuityBundle) :
    (∀ v, usage (claimed ranked kept) v = usedBy kept v) ∧
      (claimed ranked kept).length = kept.length := by
  induction kept with
  | nil => exact ⟨fun _ => rfl, rfl⟩
  | cons b kept ih =>
    simp only [claimed, usage_append, List.length_append, List.length_map] at ih ⊢
    cases hheld : heldCandidate ranked b with
    | none =>
      rw [List.filterMap_cons_none hheld, List.filter_cons_of_pos (by simp [hheld])]
      simp only [List.map_cons, List.length_cons]
      refine ⟨fun v => ?_, by omega⟩
      have hv := ih.1 v
      simp only [usage, usedBy, List.map_cons, List.sum_cons] at hv ⊢
      omega
    | some c =>
      have hlegs := (heldCandidate_eq_some.mp hheld).2.1
      have hperm : c.legs.Perm b.legs := (List.perm_ext_iff_of_nodup
        (List.Nodup.of_map _ c.legs_distinct) (List.Nodup.of_map _ b.legs_distinct)).mpr hlegs
      rw [List.filterMap_cons_some hheld, List.filter_cons_of_neg (by simp [hheld])]
      simp only [List.map_cons, List.length_cons]
      refine ⟨fun v => ?_, by omega⟩
      have hv := ih.1 v
      have hsame := subscriptions_perm hperm v
      simp only [usage, usedBy, List.map_cons, List.sum_cons] at hv ⊢
      omega

/-- The held candidates of IDs are those of the bundles of the IDs. -/
theorem filter_held (ranked : List Candidate) (kept : List ContinuityBundle) (ids : List String) :
    (kept.filterMap (heldCandidate ranked)).filter (·.bundleId ∈ ids) =
      (kept.filter (·.bundleId ∈ ids)).filterMap (heldCandidate ranked) := by
  rw [List.filter_filterMap, List.filterMap_filter]
  refine List.filterMap_congr fun b _ => ?_
  cases hheld : heldCandidate ranked b with
  | none => simp
  | some c =>
    have hid := bundleId_of_held hheld
    by_cases hb : b.bundleId ∈ ids <;> simp [hid, hb, Option.filter]

theorem takes_keepNext (s : Strategy) : Greedy.Takes (keepNext s) := by
  intro kept b
  unfold keepNext
  split
  · exact .inl rfl
  · exact .inr rfl

/-! ## The additive candidates -/

/-- Why a candidate behind the bundles of `before` is refused, if it is. -/
def refusal (s : Strategy) (held before : List (List Leg)) (c : Candidate) :
    Option AllocationRejection :=
  if LimitReached s before then some (Allocation.limitReason (held.length ≠ 0))
  else if Collides before c then some .continuityIdentityCollision
  else if MarketsExceeded s before c then some .maximumMarketsReached
  else if BudgetExceeded s (usage before) c then
    some (if BudgetExceeded s (fun v => usage before v - usage held v) c then .targetBudgetExceeded
      else .displacedByContinuityHold)
  else none

/-- The candidates taken so far, with the next one if it is not refused. -/
def admitNext (s : Strategy) (held : List (List Leg)) (taken : List Candidate) (c : Candidate) :
    List Candidate :=
  if refusal s held (held ++ taken.map (·.legs)) c = none then taken ++ [c] else taken

namespace Allocation

/-- One round of the loop, without the break. -/
def addNext (s : Strategy) (protectedSelected : Bool) (protectedUsed : Venue → Nat)
    (a : Allocation) (c : Candidate) : Allocation :=
  match a.additiveRejection s protectedSelected protectedUsed c with
  | some reason => a.reject c.bundleId reason
  | none => { a with selected := a.selected ++ [c] }.addLegs c.bundleId c.score c.legs

variable {s : Strategy} {protectedSelected : Bool} {protectedUsed : Venue → Nat}

/-- Behind the limit every round rejects. -/
theorem rejectAll_eq {a : Allocation} (hfull : a.bundleCount ≥ s.maximumBundles)
    (cs : List Candidate) :
    cs.foldl (fun a c => a.reject c.bundleId (limitReason protectedSelected)) a =
      cs.foldl (addNext s protectedSelected protectedUsed) a := by
  induction cs generalizing a with
  | nil => rfl
  | cons c cs ih =>
    have hnext : addNext s protectedSelected protectedUsed a c =
        a.reject c.bundleId (limitReason protectedSelected) := by
      simp only [addNext, additiveRejection, if_pos hfull]
    rw [List.foldl_cons, List.foldl_cons, hnext]
    exact ih hfull

/-- The break does not show. -/
theorem add_eq (a : Allocation) (cs : List Candidate) :
    a.add s protectedSelected protectedUsed cs =
      cs.foldl (addNext s protectedSelected protectedUsed) a := by
  induction cs generalizing a with
  | nil => rfl
  | cons c cs ih =>
    rw [List.foldl_cons, add, addNext]
    cases a.additiveRejection s protectedSelected protectedUsed c with
    | some reason => exact ih _
    | none =>
      simp only
      split
      · rename_i hfull
        exact rejectAll_eq hfull cs
      · exact ih _

section Tally

variable {a : Allocation} (h : a.Tallied)
include h

theorem Tallied.collides_iff (c : Candidate) :
    (c.legs.any fun l => l.targetId ∈ a.selectedTargetIds l.venue) = true ↔
      Collides a.claims c := by
  simp only [List.any_eq_true, decide_eq_true_eq, Collides]
  refine exists_congr fun l => and_congr_right fun _ => ?_
  rw [(h.ids l.venue).mem_iff, mem_targetIds_iff]

theorem Tallied.marketCount_eq : a.marketCount = a.claims.flatten.length := by
  unfold marketCount
  rw [← sum_venues]
  congr 1
  refine List.map_congr_left fun v _ => ?_
  rw [(h.ids v).length_eq, List.length_map]

/-- A candidate that does not collide has new legs. -/
theorem Tallied.fresh {c : Candidate} (hapart : ¬ Collides a.claims c) : a.Fresh c.legs := by
  refine ⟨c.legs_distinct, fun l hl hmem => hapart ((h.collides_iff c).mp ?_)⟩
  exact List.any_eq_true.mpr ⟨l, hl, decide_eq_true hmem⟩

/-- What keeps a candidate out can be told from the bundles. -/
theorem Tallied.additiveRejection_eq (held : List (List Leg)) (c : Candidate) :
    a.additiveRejection s (held.length ≠ 0) (usage held) c = refusal s held a.claims c := by
  unfold additiveRejection refusal
  rw [bundleCount_eq]
  by_cases hlimit : LimitReached s a.claims
  · rw [if_pos hlimit, if_pos hlimit]
  rw [if_neg hlimit, if_neg hlimit]
  by_cases hcollides : Collides a.claims c
  · rw [if_pos ((h.collides_iff c).mpr hcollides), if_pos hcollides]
  rw [if_neg fun h' => hcollides ((h.collides_iff c).mp h'), if_neg hcollides, h.marketCount_eq]
  by_cases hmarkets : MarketsExceeded s a.claims c
  · rw [if_pos hmarkets, if_pos hmarkets]
  rw [if_neg hmarkets, if_neg hmarkets]
  have hincrements : a.increments c.legs = subscriptions c.legs :=
    funext fun v => a.increments_eq (h.fresh hcollides) v
  have hfits (used : Venue → Nat) : (supportedVenues.all fun v =>
      used v + subscriptions c.legs v ≤ s.targetBudgets v) = true ↔ ¬ BudgetExceeded s used c := by
    simp [BudgetExceeded]
  have hused : a.budgetUsed = usage a.claims := funext h.used
  have hfit : a.fits s (subscriptions c.legs) = true ↔ ¬ BudgetExceeded s (usage a.claims) c := by
    rw [← hfits, ← hused]
    rfl
  have hblocked : a.blockedByProtected s (usage held) (subscriptions c.legs) = true ↔
      ¬ BudgetExceeded s (fun v => usage a.claims v - usage held v) c := by
    rw [← hfits, ← hused]
    rfl
  rw [hincrements]
  by_cases hbudget : BudgetExceeded s (usage a.claims) c
  · have hfull : a.fits s (subscriptions c.legs) = false := by
      rw [← Bool.not_eq_true, hfit]
      exact fun hn => hn hbudget
    rw [if_pos hbudget, hfull, Bool.not_false, if_pos rfl]
    by_cases hfree : BudgetExceeded s (fun v => usage a.claims v - usage held v) c
    · rw [if_pos hfree, if_neg (by rw [hblocked]; exact fun hn => hn hfree)]
    · rw [if_neg hfree, if_pos (hblocked.mpr hfree)]
  · rw [if_neg hbudget, hfit.mpr hbudget, Bool.not_true, if_neg Bool.false_ne_true]

end Tally

end Allocation

/-- The allocation after some additive candidates, of which `taken` are added to `start`. -/
structure Adds (s : Strategy) (start a : Allocation) (taken : List Candidate) : Prop where
  tallied : a.Tallied
  within : ∀ v, a.budgetUsed v ≤ s.targetBudgets v
  count : a.bundleCount ≤ s.maximumBundles
  selected : a.selected = start.selected ++ taken
  retained : a.selectedRetained = start.selectedRetained

section Additive

variable {s : Strategy} {start a : Allocation} {taken : List Candidate}

/-- A round of the loop behind the protected allocation. -/
abbrev round (s : Strategy) (start a : Allocation) (c : Candidate) : Allocation :=
  a.addNext s (start.claims.length ≠ 0) (usage start.claims) c

theorem Adds.claims_perm (h : Adds s start a taken) :
    a.claims = start.claims ++ taken.map (·.legs) := by
  simp [Allocation.claims, h.selected, h.retained]

theorem Adds.round_eq (h : Adds s start a taken) (c : Candidate) :
    round s start a c =
      match refusal s start.claims (start.claims ++ taken.map (·.legs)) c with
      | some reason => a.reject c.bundleId reason
      | none => { a with selected := a.selected ++ [c] }.addLegs c.bundleId c.score c.legs := by
  rw [round, Allocation.addNext, h.tallied.additiveRejection_eq, h.claims_perm]

theorem refusal_eq_none {held before : List (List Leg)} {c : Candidate} :
    refusal s held before c = none ↔ ¬ LimitReached s before ∧ ¬ Collides before c ∧
      ¬ MarketsExceeded s before c ∧ ¬ BudgetExceeded s (usage before) c := by
  unfold refusal
  by_cases hlimit : LimitReached s before
  · rw [if_pos hlimit]
    exact iff_of_false (Option.some_ne_none _) fun h => h.1 hlimit
  by_cases hcollides : Collides before c
  · rw [if_neg hlimit, if_pos hcollides]
    exact iff_of_false (Option.some_ne_none _) fun h => h.2.1 hcollides
  by_cases hmarkets : MarketsExceeded s before c
  · rw [if_neg hlimit, if_neg hcollides, if_pos hmarkets]
    exact iff_of_false (Option.some_ne_none _) fun h => h.2.2.1 hmarkets
  by_cases hbudget : BudgetExceeded s (usage before) c
  · rw [if_neg hlimit, if_neg hcollides, if_neg hmarkets, if_pos hbudget]
    exact iff_of_false (Option.some_ne_none _) fun h => h.2.2.2 hbudget
  · rw [if_neg hlimit, if_neg hcollides, if_neg hmarkets, if_neg hbudget]
    exact iff_of_true rfl ⟨hlimit, hcollides, hmarkets, hbudget⟩

theorem Adds.next (h : Adds s start a taken) (c : Candidate) :
    Adds s start (round s start a c) (admitNext s start.claims taken c) := by
  rw [h.round_eq]
  unfold admitNext
  cases href : refusal s start.claims (start.claims ++ taken.map (·.legs)) c with
  | some reason =>
    have htallied := h.tallied
    rw [if_neg (Option.some_ne_none _)]
    exact ⟨⟨htallied.used, htallied.ids, htallied.emitted, htallied.paid, htallied.distinct,
      htallied.whole⟩, h.within, h.count, h.selected, h.retained⟩
  | none =>
    have hopen := refusal_eq_none.mp href
    rw [← h.claims_perm] at hopen
    obtain ⟨hlimit, hapart, -, hbudget⟩ := hopen
    have hfresh := h.tallied.fresh hapart
    have hframe := { a with selected := a.selected ++ [c] }.addLegs_frame c.bundleId c.score c.legs
    have hadded := { a with selected := a.selected ++ [c] }.addLegs_fresh c.bundleId c.score
      (show Allocation.Fresh { a with selected := a.selected ++ [c] } c.legs from hfresh)
    rw [if_pos rfl]
    exact {
      tallied := h.tallied.select hfresh rfl rfl rfl
        (List.Perm.of_eq (by simp [Allocation.claims])) fun d hd => by
          rw [List.mem_append, List.mem_singleton] at hd
          rcases hd with hd | rfl
          · exact .inl hd
          · exact .inr ⟨rfl, rfl, rfl⟩
      within := fun v => by
        have hv : ¬ s.targetBudgets v < usage a.claims v + subscriptions c.legs v :=
          fun hlt => hbudget ⟨v, mem_supportedVenues v, hlt⟩
        rw [(hadded v).2.1, h.tallied.used v]
        omega
      count := by
        have hroom : ¬ s.maximumBundles ≤ a.bundleCount := by rwa [Allocation.bundleCount_eq]
        simp only [Allocation.bundleCount, hframe.1, hframe.2.1, List.length_append,
          List.length_singleton] at hroom ⊢
        omega
      selected := by rw [hframe.1, h.selected, List.append_assoc]
      retained := by rw [hframe.2.1, h.retained] }

theorem Adds.run (h : Adds s start a taken) (cs : List Candidate) :
    Adds s start (cs.foldl (round s start) a) (cs.foldl (admitNext s start.claims) taken) := by
  induction cs generalizing a taken with
  | nil => exact h
  | cons c cs ih => exact ih (h.next c)

/-- Candidates of other IDs leave what is listed under an ID. -/
theorem rejections_frame {id : String} (cs : List Candidate) (hnot : id ∉ cs.map (·.bundleId)) :
    (cs.foldl (round s start) a).allocationRejections id = a.allocationRejections id := by
  induction cs generalizing a with
  | nil => rfl
  | cons c cs ih =>
    rw [List.map_cons, List.mem_cons, not_or] at hnot
    rw [List.foldl_cons, ih hnot.2]
    unfold round Allocation.addNext
    split
    · exact Function.update_of_ne hnot.1 _ _
    · rw [Allocation.addLegs_rejections]

/-- What is listed under a candidate's ID is what kept it out at its turn. -/
theorem Adds.rejection (h : Adds s start start []) {pre post : List Candidate} {c : Candidate}
    (hids : ((pre ++ c :: post).map (·.bundleId)).Nodup)
    (hnone : start.allocationRejections c.bundleId = none) :
    ((pre ++ c :: post).foldl (round s start) start).allocationRejections c.bundleId =
      refusal s start.claims
        (start.claims ++ (pre.foldl (admitNext s start.claims) []).map (·.legs)) c := by
  rw [List.map_append, List.map_cons, List.nodup_append, List.nodup_cons] at hids
  obtain ⟨-, ⟨hpost, -⟩, hpre⟩ := hids
  have hbefore := h.run pre
  have hstart : (pre.foldl (round s start) start).allocationRejections c.bundleId = none := by
    rw [rejections_frame pre fun hmem => hpre _ hmem _ List.mem_cons_self rfl, hnone]
  rw [List.foldl_append, List.foldl_cons, rejections_frame post hpost, hbefore.round_eq]
  split
  · rename_i reason heq
    rw [heq]
    exact Function.update_self _ _ _
  · rename_i heq
    rw [heq, Allocation.addLegs_rejections]
    exact hstart

/-- A candidate is taken when nothing keeps it out. -/
theorem takes_admitNext (s : Strategy) (held : List (List Leg)) :
    Greedy.Takes (admitNext s held) := by
  intro taken c
  unfold admitNext
  split
  · exact .inl rfl
  · exact .inr rfl

theorem admitNext_eq_append {held : List (List Leg)} {c : Candidate} :
    admitNext s held taken c = taken ++ [c] ↔
      refusal s held (held ++ taken.map (·.legs)) c = none := by
  unfold admitNext
  split
  · rename_i h
    exact iff_of_true rfl h
  · rename_i h
    exact iff_of_false (by simp) h

end Additive

/-! ## The selection -/

section Result

variable (s : Strategy) (ranking : Candidate → Candidate → Prop) [DecidableRel ranking] (now : Int)
  (candidates : List Candidate) (prior : ContinuitySet)

theorem heldPrior_bundles : (heldPrior s prior).bundles =
    if s.continuityHoldEnabled then prior.bundles else [] := by
  unfold heldPrior
  split <;> rfl

/-- The allocation behind the protected bundles, which all other rounds start from. -/
def protectedStart : Allocation :=
  protectedAllocation s now (heldPrior s prior).bundles (ranked ranking candidates)

/-- The candidates that are added, in order. -/
def additiveCandidates : List Candidate :=
  additive s now (heldPrior s prior).bundles (ranked ranking candidates)

theorem selectTargets_eq :
    let start := protectedStart s ranking now candidates prior
    let final := (additiveCandidates s ranking now candidates prior).foldl (round s start) start
    let r := selectTargets s ranking now candidates prior.bundles
    start.Tallied → r.selected = final.selected ∧ r.retained = final.selectedRetained ∧
      r.budgetUsed = final.budgetUsed ∧ (∀ v, (r.targets v).Perm (final.targets v)) ∧
      r.allocationRejections = final.allocationRejections := by
  intro start final r htallied
  have hfinal : start.add s (start.bundleCount ≠ 0) start.budgetUsed
      (additiveCandidates s ranking now candidates prior) = final := by
    rw [Allocation.add_eq, start.bundleCount_eq, show start.budgetUsed = usage start.claims from
      funext htallied.used]
  have hr : r = selectTargets s ranking now candidates prior.bundles := rfl
  unfold selectTargets at hr
  simp only [← heldPrior_bundles] at hr
  have hsame : (protectedAllocation s now (heldPrior s prior).bundles
      (ranked ranking candidates)).add s
      ((protectedAllocation s now (heldPrior s prior).bundles
        (ranked ranking candidates)).bundleCount ≠ 0)
      (protectedAllocation s now (heldPrior s prior).bundles (ranked ranking candidates)).budgetUsed
      (additive s now (heldPrior s prior).bundles (ranked ranking candidates)) = final := hfinal
  rw [hsame] at hr
  rw [hr]
  exact ⟨rfl, rfl, rfl, fun v => List.perm_insertionSort _ _, rfl⟩

theorem protectedStart_protects :
    Protects (ranked ranking candidates)
      (initialDispositions s now (heldPrior s prior).bundles (ranked ranking candidates))
      (protectedStart s ranking now candidates prior) (survivors s now (heldPrior s prior))
      (keptBundles s now (heldPrior s prior)) := by
  unfold protectedStart protectedAllocation
  rw [protectedEntries_eq (heldPrior s prior).ids, List.foldl_map]
  exact protect_run Protects.toReaches Protects.keep Protects.trim _ (protects_start _ _)
    (survivors_ids s now _) (survivors_disjoint s now _)

theorem protectedStart_adds :
    Adds s (protectedStart s ranking now candidates prior)
      (protectedStart s ranking now candidates prior) [] := by
  have h := protectedStart_protects s ranking now candidates prior
  have hwithin := @kept_within s (survivors s now (heldPrior s prior)) []
    ⟨fun _ => Nat.zero_le _, Nat.zero_le _⟩
  exact {
    tallied := h.tallied
    within := fun v => by rw [h.used v]; exact hwithin.1 v
    count := by rw [h.count]; exact hwithin.2
    selected := (List.append_nil _).symm
    retained := rfl }

/-- The final allocation, which `selectTargets` reports. -/
theorem final_adds :
    Adds s (protectedStart s ranking now candidates prior)
      ((additiveCandidates s ranking now candidates prior).foldl
        (round s (protectedStart s ranking now candidates prior))
        (protectedStart s ranking now candidates prior))
      ((additiveCandidates s ranking now candidates prior).foldl
        (admitNext s (protectedStart s ranking now candidates prior).claims) []) :=
  (protectedStart_adds s ranking now candidates prior).run _

theorem selectTargets_emission :
    Emission s (selectTargets s ranking now candidates prior.bundles) := by
  have hstart := protectedStart_adds s ranking now candidates prior
  obtain ⟨hselected, hretained, hused, htargets, -⟩ :=
    selectTargets_eq s ranking now candidates prior hstart.tallied
  have h := final_adds s ranking now candidates prior
  exact {
    used := fun v => by
      rw [hused, ← h.tallied.paid v]
      exact ((htargets v).map _).sum_eq.symm
    within := fun v => by rw [hused]; exact h.within v
    once := by
      have hids (v : Venue) := ((htargets v).map (·.targetId)).trans
        (List.Perm.of_eq (h.tallied.emitted v))
      refine List.nodup_flatMap.mpr ⟨fun v _ => ?_, ?_⟩
      · exact (hids v).nodup_iff.mpr (h.tallied.distinct v)
      · refine List.Pairwise.imp ?_ (show supportedVenues.Nodup by decide)
        intro v w hvw id hv hw
        have hv := (h.tallied.ids v).mem_iff.mp ((hids v).mem_iff.mp hv)
        have hw := (h.tallied.ids w).mem_iff.mp ((hids w).mem_iff.mp hw)
        obtain ⟨l, hl, rfl⟩ := List.mem_map.mp hv
        obtain ⟨m, hm, hid⟩ := List.mem_map.mp hw
        have hlv : l.venue = v := of_decide_eq_true (List.mem_filter.mp hl).2
        have hmw : m.venue = w := of_decide_eq_true (List.mem_filter.mp hm).2
        exact hvw (hlv.symm.trans ((Leg.targetId_inj hid).1.symm.trans hmw))
    bundles := by
      rw [hselected, hretained]
      exact h.count
    whole := fun c hc l hl => by
      rw [hselected] at hc
      exact (htargets l.venue).mem_iff.mpr (h.tallied.whole c hc l hl) }

/-! ## The turn of a candidate -/

section Turns

variable (hids : ((ranked ranking candidates).map (·.bundleId)).Nodup)

theorem mem_protectedIds {id : String} : id ∈ protectedIds s now prior ↔
    id ∈ (protectedBundles s now (heldPrior s prior).bundles).map (·.bundleId) :=
  ((survivors_perm s now (heldPrior s prior)).map _).mem_iff

theorem mem_additiveCandidates {c : Candidate} :
    c ∈ additiveCandidates s ranking now candidates prior ↔
      c ∈ ranked ranking candidates ∧ c.bundleId ∉ protectedIds s now prior := by
  rw [mem_protectedIds]
  simp [additiveCandidates, additive]

/-- What is selected for a protected bundle has its ID. -/
theorem start_selected {c : Candidate} :
    c ∈ (protectedStart s ranking now candidates prior).selected ↔
      ∃ b ∈ keptBundles s now (heldPrior s prior),
        heldCandidate (ranked ranking candidates) b = some c := by
  rw [(protectedStart_protects s ranking now candidates prior).selected, List.mem_filterMap]

theorem start_selected_protected {c : Candidate}
    (hc : c ∈ (protectedStart s ranking now candidates prior).selected) :
    c.bundleId ∈ protectedIds s now prior := by
  obtain ⟨b, hb, hheld⟩ := (start_selected s ranking now candidates prior).mp hc
  rw [bundleId_of_held hheld]
  exact List.mem_map_of_mem ((keptBundles_sub s now _).subset hb)

theorem start_retained_protected {b : ContinuityBundle}
    (hb : b ∈ (protectedStart s ranking now candidates prior).selectedRetained) :
    b.bundleId ∈ protectedIds s now prior := by
  rw [(protectedStart_protects s ranking now candidates prior).retained] at hb
  exact List.mem_map_of_mem ((keptBundles_sub s now _).subset (List.mem_filter.mp hb).1)

include hids

theorem additive_ids :
    ((additiveCandidates s ranking now candidates prior).map (·.bundleId)).Nodup :=
  hids.sublist (List.filter_sublist.map _)

theorem order_nodup : (allocationOrder s ranking now candidates prior).Nodup := by
  refine List.nodup_append.mpr ⟨survivors_ids s now _,
    additive_ids s ranking now candidates prior hids, ?_⟩
  intro id hid id' hid' heq
  obtain ⟨c, hc, rfl⟩ := List.mem_map.mp hid'
  exact ((mem_additiveCandidates s ranking now candidates prior).mp hc).2 (heq ▸ hid)

/-- What the run of additive candidates takes. -/
def admitted (cs : List Candidate) : List Candidate :=
  cs.foldl (admitNext s (protectedStart s ranking now candidates prior).claims) []

omit hids in
theorem selected_eq : (selectTargets s ranking now candidates prior.bundles).selected =
    (protectedStart s ranking now candidates prior).selected ++
      admitted s ranking now candidates prior
        (additiveCandidates s ranking now candidates prior) := by
  have hstart := protectedStart_adds s ranking now candidates prior
  rw [(selectTargets_eq s ranking now candidates prior hstart.tallied).1]
  exact (final_adds s ranking now candidates prior).selected

omit hids in
theorem retained_eq : (selectTargets s ranking now candidates prior.bundles).retained =
    (protectedStart s ranking now candidates prior).selectedRetained := by
  have hstart := protectedStart_adds s ranking now candidates prior
  rw [(selectTargets_eq s ranking now candidates prior hstart.tallied).2.1]
  exact (final_adds s ranking now candidates prior).retained

omit hids in
/-- The protected bundles are in front of every additive candidate. -/
theorem allocated_eq {earlier : List String} (h : ∀ id ∈ protectedIds s now prior, id ∈ earlier) :
    allocated (selectTargets s ranking now candidates prior.bundles) earlier =
      (protectedStart s ranking now candidates prior).claims ++
        ((admitted s ranking now candidates prior
          (additiveCandidates s ranking now candidates prior)).filter
            (·.bundleId ∈ earlier)).map (·.legs) := by
  have hretained : (protectedStart s ranking now candidates prior).selectedRetained.filter
      (·.bundleId ∈ earlier) = (protectedStart s ranking now candidates prior).selectedRetained :=
    List.filter_eq_self.mpr fun b hb =>
      decide_eq_true (h _ (start_retained_protected s ranking now candidates prior hb))
  have hselected : (protectedStart s ranking now candidates prior).selected.filter
      (·.bundleId ∈ earlier) = (protectedStart s ranking now candidates prior).selected :=
    List.filter_eq_self.mpr fun c hc =>
      decide_eq_true (h _ (start_selected_protected s ranking now candidates prior hc))
  rw [allocated, selected_eq, retained_eq, List.filter_append, hretained, hselected,
    List.map_append, ← List.append_assoc]
  rfl

omit hids in
theorem admitted_sub (cs : List Candidate) :
    (admitted s ranking now candidates prior cs).Sublist cs := by
  obtain ⟨more, hsub, heq⟩ := (takes_admitNext s _).append cs []
  rw [admitted, heq]
  exact hsub

omit hids in
theorem allocated_protected :
    allocated (selectTargets s ranking now candidates prior.bundles) (protectedIds s now prior) =
      (protectedStart s ranking now candidates prior).claims := by
  rw [allocated_eq s ranking now candidates prior fun _ h => h, List.filter_eq_nil_iff.mpr]
  · exact List.append_nil _
  · intro c hc hin
    have hmem := (admitted_sub s ranking now candidates prior _).subset hc
    exact ((mem_additiveCandidates s ranking now candidates prior).mp hmem).2 (of_decide_eq_true hin)

section Split

variable {pre post : List Candidate} {c : Candidate}
  (hsplit : additiveCandidates s ranking now candidates prior = pre ++ c :: post)
include hsplit

/-- What is allocated before a turn: the protected bundles and the candidates in front. -/
theorem turn_unique {earlier later : List String}
    (h : allocationOrder s ranking now candidates prior = earlier ++ c.bundleId :: later) :
    earlier = protectedIds s now prior ++ pre.map (·.bundleId) := by
  have horder := order_nodup s ranking now candidates prior hids
  have heq : allocationOrder s ranking now candidates prior =
      (protectedIds s now prior ++ pre.map (·.bundleId)) ++
        c.bundleId :: post.map (·.bundleId) := by
    have hcs : allocationOrder s ranking now candidates prior = protectedIds s now prior ++
      (additiveCandidates s ranking now candidates prior).map (·.bundleId) := rfl
    rw [hcs, hsplit, List.map_append, List.map_cons, List.append_assoc]
  rw [heq, List.nodup_append, List.nodup_cons] at horder
  rw [heq] at h
  exact ((List.append_cons_inj_of_notMem
    (fun hmem => horder.2.2 _ hmem _ List.mem_cons_self rfl) horder.2.1.1).mp h).1.symm

theorem allocated_front :
    allocated (selectTargets s ranking now candidates prior.bundles)
        (protectedIds s now prior ++ pre.map (·.bundleId)) =
      (protectedStart s ranking now candidates prior).claims ++
        (admitted s ranking now candidates prior pre).map (·.legs) := by
  have hnodup := additive_ids s ranking now candidates prior hids
  rw [allocated_eq s ranking now candidates prior fun _ h => List.mem_append_left _ h, hsplit]
  rw [hsplit] at hnodup
  congr 2
  refine (takes_admitNext s _).front hnodup fun d hd => ?_
  have hfree := ((mem_additiveCandidates s ranking now candidates prior).mp (hsplit ▸ hd)).2
  rw [List.mem_append, or_iff_right hfree]
  constructor
  · intro hmem
    obtain ⟨e, he, hid⟩ := List.mem_map.mp hmem
    have heq := List.inj_on_of_nodup_map hnodup (List.mem_append_left _ he) hd hid
    exact heq ▸ he
  · exact fun hmem => List.mem_map_of_mem hmem

/-- What is listed under an additive candidate's ID is what kept it out. -/
theorem additive_rejection :
    (selectTargets s ranking now candidates prior.bundles).allocationRejections c.bundleId =
      refusal s (protectedStart s ranking now candidates prior).claims
        ((protectedStart s ranking now candidates prior).claims ++
          (admitted s ranking now candidates prior pre).map (·.legs)) c := by
  have hstart := protectedStart_adds s ranking now candidates prior
  have hnodup := additive_ids s ranking now candidates prior hids
  have hmem : c ∈ additiveCandidates s ranking now candidates prior := by simp [hsplit]
  have hfree := ((mem_additiveCandidates s ranking now candidates prior).mp hmem).2
  have hnone : (protectedStart s ranking now candidates prior).allocationRejections c.bundleId =
      none := by
    rw [(protectedStart_protects s ranking now candidates prior).rejections, if_neg]
    rintro ⟨b, hb, hid, -⟩
    exact hfree (hid ▸ List.mem_map_of_mem hb)
  rw [(selectTargets_eq s ranking now candidates prior hstart.tallied).2.2.2.2, hsplit]
  rw [hsplit] at hnodup
  exact hstart.rejection hnodup hnone

theorem additive_selected :
    c ∈ (selectTargets s ranking now candidates prior.bundles).selected ↔
      refusal s (protectedStart s ranking now candidates prior).claims
        ((protectedStart s ranking now candidates prior).claims ++
          (admitted s ranking now candidates prior pre).map (·.legs)) c = none := by
  have hnodup := additive_ids s ranking now candidates prior hids
  have hmem : c ∈ additiveCandidates s ranking now candidates prior := by simp [hsplit]
  have hfree := ((mem_additiveCandidates s ranking now candidates prior).mp hmem).2
  have hnot : c ∉ (protectedStart s ranking now candidates prior).selected := fun h =>
    hfree (start_selected_protected s ranking now candidates prior h)
  rw [selected_eq, List.mem_append, or_iff_right hnot, hsplit]
  rw [hsplit] at hnodup
  exact ((takes_admitNext s _).mem_iff hnodup).trans admitNext_eq_append

end Split

/-! ## The turn of a protected bundle -/

omit hids in
/-- A protected bundle is listed exactly when it is not kept. -/
theorem protected_rejection {b : ContinuityBundle}
    (hb : b ∈ survivors s now (heldPrior s prior)) :
    (selectTargets s ranking now candidates prior.bundles).allocationRejections b.bundleId =
      if b ∈ keptBundles s now (heldPrior s prior) then none else some .continuityBudgetTrimmed := by
  have hstart := protectedStart_adds s ranking now candidates prior
  have hnot : b.bundleId ∉
      (additiveCandidates s ranking now candidates prior).map (·.bundleId) := by
    intro hmem
    obtain ⟨c, hc, hid⟩ := List.mem_map.mp hmem
    refine ((mem_additiveCandidates s ranking now candidates prior).mp hc).2 ?_
    exact hid ▸ List.mem_map_of_mem hb
  rw [(selectTargets_eq s ranking now candidates prior hstart.tallied).2.2.2.2,
    rejections_frame _ hnot, (protectedStart_protects s ranking now candidates prior).rejections]
  by_cases hkept : b ∈ keptBundles s now (heldPrior s prior)
  · rw [if_pos hkept, if_neg]
    rintro ⟨c, hc, hid, hnot⟩
    exact hnot (List.inj_on_of_nodup_map (survivors_ids s now _) hc hb hid ▸ hkept)
  · rw [if_neg hkept, if_pos ⟨b, hb, rfl, hkept⟩]

omit hids in
/-- Who is selected under a protected ID is the held candidate of a kept bundle. -/
theorem protected_selected {b : ContinuityBundle} {c : Candidate}
    (hb : b ∈ survivors s now (heldPrior s prior)) (hid : c.bundleId = b.bundleId) :
    c ∈ (selectTargets s ranking now candidates prior.bundles).selected ↔
      b ∈ keptBundles s now (heldPrior s prior) ∧
        heldCandidate (ranked ranking candidates) b = some c := by
  have hnot : c ∉ admitted s ranking now candidates prior
      (additiveCandidates s ranking now candidates prior) := by
    intro hmem
    have hc := (admitted_sub s ranking now candidates prior _).subset hmem
    refine ((mem_additiveCandidates s ranking now candidates prior).mp hc).2 ?_
    exact hid ▸ List.mem_map_of_mem hb
  rw [selected_eq, List.mem_append, or_iff_left hnot, start_selected]
  constructor
  · rintro ⟨d, hd, hheld⟩
    have hdb : d = b := List.inj_on_of_nodup_map (survivors_ids s now _)
      ((keptBundles_sub s now _).subset hd) hb ((bundleId_of_held hheld).symm.trans hid)
    exact hdb ▸ ⟨hd, hheld⟩
  · exact fun h => ⟨b, h⟩

omit hids in
theorem protected_retained {b : ContinuityBundle} (hb : b ∈ survivors s now (heldPrior s prior))
    (hnone : heldCandidate (ranked ranking candidates) b = none) :
    (∃ d ∈ (selectTargets s ranking now candidates prior.bundles).retained,
      d.bundleId = b.bundleId) ↔ b ∈ keptBundles s now (heldPrior s prior) := by
  rw [retained_eq, (protectedStart_protects s ranking now candidates prior).retained]
  constructor
  · rintro ⟨d, hd, hid⟩
    have hkept := (List.mem_filter.mp hd).1
    exact List.inj_on_of_nodup_map (survivors_ids s now _)
      ((keptBundles_sub s now _).subset hkept) hb hid ▸ hkept
  · intro hkept
    exact ⟨b, List.mem_filter.mpr ⟨hkept, by rw [hnone]; rfl⟩, rfl⟩

omit hids in
/-- What is allocated before a protected bundle's turn. -/
theorem protected_front {pre post : List ContinuityBundle} {b : ContinuityBundle}
    (hsplit : survivors s now (heldPrior s prior) = pre ++ b :: post) :
    allocated (selectTargets s ranking now candidates prior.bundles) (pre.map (·.bundleId)) =
      claimed (ranked ranking candidates) (pre.foldl (keepNext s) []) := by
  have hnodup := survivors_ids s now (heldPrior s prior)
  rw [hsplit] at hnodup
  have hprotects := protectedStart_protects s ranking now candidates prior
  have hfront : (keptBundles s now (heldPrior s prior)).filter
      (·.bundleId ∈ pre.map (·.bundleId)) = pre.foldl (keepNext s) [] := by
    rw [keptBundles, hsplit]
    refine (takes_keepNext s).front hnodup fun d hd => ⟨fun hmem => ?_, List.mem_map_of_mem⟩
    obtain ⟨e, he, hid⟩ := List.mem_map.mp hmem
    exact List.inj_on_of_nodup_map hnodup (List.mem_append_left _ he) hd hid ▸ he
  have hnone : (admitted s ranking now candidates prior
      (additiveCandidates s ranking now candidates prior)).filter
        (·.bundleId ∈ pre.map (·.bundleId)) = [] := by
    refine List.filter_eq_nil_iff.mpr fun c hc hin => ?_
    have hmem := (admitted_sub s ranking now candidates prior _).subset hc
    refine ((mem_additiveCandidates s ranking now candidates prior).mp hmem).2 ?_
    obtain ⟨d, hd, hid⟩ := List.mem_map.mp (of_decide_eq_true hin)
    exact List.mem_map.mpr ⟨d, hsplit ▸ List.mem_append_left _ hd, hid⟩
  rw [allocated, selected_eq, retained_eq, hprotects.selected, hprotects.retained,
    List.filter_append, hnone, List.append_nil, filter_held, hfront, List.filter_comm, hfront]
  rfl

end Turns

/-! ## Soundness -/

/-- A candidate of the ranking is protected or additive. -/
theorem exists_split {c : Candidate} (hc : c ∈ ranked ranking candidates)
    (hfree : c.bundleId ∉ protectedIds s now prior) :
    ∃ pre post, additiveCandidates s ranking now candidates prior = pre ++ c :: post :=
  List.append_of_mem ((mem_additiveCandidates s ranking now candidates prior).mpr ⟨hc, hfree⟩)

/-- A protected candidate that nothing supersedes is held for its bundle. -/
theorem held_of_protected (hids : ((ranked ranking candidates).map (·.bundleId)).Nodup)
    {c : Candidate} (hc : c ∈ ranked ranking candidates)
    (hprotected : c.bundleId ∈ protectedIds s now prior)
    (hfree : ¬ Superseded s ranking now candidates prior c) :
    ∃ b ∈ survivors s now (heldPrior s prior), b.bundleId = c.bundleId ∧
      heldCandidate (ranked ranking candidates) b = some c := by
  obtain ⟨b, hb, hid⟩ := List.mem_map.mp hprotected
  refine ⟨b, hb, hid, ?_⟩
  cases hheld : heldCandidate (ranked ranking candidates) b with
  | none => exact absurd ⟨b, hb, hid, hheld⟩ hfree
  | some d =>
    have hd := List.mem_reverse.mp (List.mem_of_find?_eq_some (heldCandidate_eq_some.mp hheld).1)
    rw [List.inj_on_of_nodup_map hids hd hc ((bundleId_of_held hheld).trans hid)]

/-- A held candidate is refused when its bundle does not fit behind what is allocated before it. -/
theorem held_refused {b : ContinuityBundle} {c : Candidate}
    (hb : b ∈ survivors s now (heldPrior s prior))
    (hheld : heldCandidate (ranked ranking candidates) b = some c) {before : List (List Leg)}
    (hrefused : RefusedAfter s ranking now candidates prior c before) :
    LimitReached s before ∨ BudgetExceeded s (usage before) c := by
  obtain ⟨hlisted, earlier, later, horder, rfl⟩ := hrefused
  have hid := bundleId_of_held hheld
  rw [hid, protected_rejection s ranking now candidates prior hb] at hlisted
  have hnot : b ∉ keptBundles s now (heldPrior s prior) := fun hkept => by
    rw [if_pos hkept] at hlisted
    exact Bool.false_ne_true hlisted
  obtain ⟨pre, post, hsplit⟩ := List.append_of_mem hb
  have hnodup := survivors_ids s now (heldPrior s prior)
  -- the order names a protected ID once, among the protected ones
  have hearlier : earlier = pre.map (·.bundleId) := by
    have heq : allocationOrder s ranking now candidates prior = pre.map (·.bundleId) ++
        b.bundleId :: (post.map (·.bundleId) ++
          (additiveCandidates s ranking now candidates prior).map (·.bundleId)) := by
      have hids : protectedIds s now prior = (pre ++ b :: post).map (·.bundleId) :=
        congrArg (List.map ContinuityBundle.bundleId) hsplit
      rw [allocationOrder, hids]
      simp [additiveCandidates]
    rw [heq, hid] at horder
    rw [hsplit, List.map_append, List.map_cons, List.nodup_append, List.nodup_cons] at hnodup
    refine ((List.append_cons_inj_of_notMem (fun hmem => ?_) fun hmem => ?_).mp horder).1.symm
    · exact hnodup.2.2 _ hmem _ List.mem_cons_self rfl
    · rcases List.mem_append.mp hmem with hmem | hmem
      · exact hnodup.2.1.1 hmem
      · obtain ⟨d, hd, hdid⟩ := List.mem_map.mp hmem
        refine ((mem_additiveCandidates s ranking now candidates prior).mp hd).2 ?_
        exact hdid ▸ List.mem_map_of_mem hb
  rw [hearlier, protected_front s ranking now candidates prior hsplit]
  have hfits : fitsAfter s (pre.foldl (keepNext s) []) b = false := by
    rw [← Bool.not_eq_true]
    intro hfits
    rw [keptBundles, hsplit] at hnot
    rw [hsplit] at hnodup
    refine hnot (((takes_keepNext s).mem_iff hnodup).mpr ?_)
    rw [keepNext, if_pos hfits]
  obtain ⟨husage, hlength⟩ :=
    claimed_tally (ranked ranking candidates) (pre.foldl (keepNext s) [])
  have hlegs : c.legs.Perm b.legs := by
    have hperm := entryOf_legs (ranked ranking candidates) b
    simpa only [entryOf, ProtectedEntry.legs, hheld] using hperm
  rw [LimitReached, hlength]
  by_contra hcon
  rw [not_or] at hcon
  refine Bool.false_ne_true (hfits.symm.trans ?_)
  rw [fitsAfter, Bool.and_eq_true, List.all_eq_true]
  refine ⟨fun v hv => decide_eq_true ?_, decide_eq_true (by omega)⟩
  rw [← husage v, ← subscriptions_perm hlegs v]
  exact not_lt.mp fun hlt => hcon.2 ⟨v, hv, hlt⟩

/-- Budgets, limits and outcomes of a selection, bundle by bundle, when the eligible candidates have
    IDs of their own. -/
theorem allocation_sound (hids : ((ranked ranking candidates).map (·.bundleId)).Nodup) :
    Sound s ranking now candidates prior where
  toEmission := selectTargets_emission s ranking now candidates prior
  settled := fun c hc hfree => by
    by_cases hprotected : c.bundleId ∈ protectedIds s now prior
    · obtain ⟨b, hb, hid, hheld⟩ :=
        held_of_protected s ranking now candidates prior hids hc hprotected hfree
      rw [protected_selected s ranking now candidates prior hb hid.symm, ← hid,
        protected_rejection s ranking now candidates prior hb]
      split <;> simp [*]
    · obtain ⟨pre, post, hsplit⟩ :=
        exists_split s ranking now candidates prior hc hprotected
      rw [additive_selected s ranking now candidates prior hids hsplit,
        additive_rejection s ranking now candidates prior hids hsplit]
  superseded := fun c hc hsuperseded => by
    obtain ⟨b, hb, hid, hnone⟩ := hsuperseded
    constructor
    · rw [protected_selected s ranking now candidates prior hb hid.symm, hnone]
      exact fun h => Option.some_ne_none c h.2.symm
    · rw [← hid, protected_retained s ranking now candidates prior hb hnone,
        protected_rejection s ranking now candidates prior hb]
      split <;> simp [*]
  refused := fun c hc hfree before hrefused => by
    by_cases hprotected : c.bundleId ∈ protectedIds s now prior
    · obtain ⟨b, hb, hid, hheld⟩ :=
        held_of_protected s ranking now candidates prior hids hc hprotected hfree
      rcases held_refused s ranking now candidates prior hb hheld hrefused with h | h
      · exact .inl h
      · exact .inr (.inr (.inr h))
    · obtain ⟨pre, post, hsplit⟩ :=
        exists_split s ranking now candidates prior hc hprotected
      obtain ⟨hlisted, earlier, later, horder, rfl⟩ := hrefused
      rw [turn_unique s ranking now candidates prior hids hsplit horder,
        allocated_front s ranking now candidates prior hids hsplit]
      rw [additive_rejection s ranking now candidates prior hids hsplit,
        Option.isSome_iff_ne_none, ne_eq, refusal_eq_none] at hlisted
      by_contra hcon
      simp only [not_or] at hcon
      exact hlisted hcon
  displaced := fun c hc hprotected before hrefused hbudget => by
    obtain ⟨pre, post, hsplit⟩ :=
      exists_split s ranking now candidates prior hc hprotected
    obtain ⟨hlisted, earlier, later, horder, hbefore⟩ := hrefused
    rw [turn_unique s ranking now candidates prior hids hsplit horder,
      allocated_front s ranking now candidates prior hids hsplit] at hbefore
    rw [DisplacedExactly, additive_rejection s ranking now candidates prior hids hsplit,
      allocated_protected, ← hbefore, refusal, if_neg hbudget.limit, if_neg hbudget.apart,
      if_neg hbudget.markets, if_pos hbudget.budget]
    split
    · rename_i hover
      exact iff_of_false (by simp) fun hn => hn hover
    · rename_i hfree
      exact iff_of_true rfl hfree
  trimmed := fun id hid => by
    obtain ⟨b, hb, rfl⟩ := List.mem_map.mp hid
    rw [protected_rejection s ranking now candidates prior hb]
    split <;> simp

end Result

/-! ## Three markets -/

theorem outcomes_ne_nil (first second : String) : [first, second] ≠ [] := List.cons_ne_nil _ _

theorem outcomes_nodup {first second : String} (h : first ≠ second) : [first, second].Nodup :=
  List.nodup_cons.mpr ⟨fun hmem => h (List.mem_singleton.mp hmem), List.nodup_singleton _⟩

/-- A Polymarket market with two outcomes. -/
def twoOutcomes (market first second : String) (h : first ≠ second) : CanonicalMarket where
  venue := .polymarket
  venueMarketId := market
  canonicalClass := "soccer.moneyline_3way"
  subscriptionIds := [first, second]
  sourceRef := "catalog"
  subscribed := outcomes_ne_nil first second
  unique := outcomes_nodup h

theorem twoOutcomes_distinct (market first second : String) (h : first ≠ second) :
    ([twoOutcomes market first second h].map fun m => targetId m.venue m.venueMarketId).Nodup :=
  List.nodup_singleton _

/-- A market as a candidate of its own. -/
def marketCandidate (bundleId market first second : String) (h : first ≠ second) : Candidate where
  bundleId := bundleId
  activationAt := 0
  captureStartAt := 0
  score := 1
  eligible := true
  eligibleMarkets := [twoOutcomes market first second h]
  distinct := twoOutcomes_distinct market first second h

theorem priorTarget_complete (first second : String) :
    "soccer.moneyline_3way" ≠ "" ∧ [first, second] ≠ [] ∧ "catalog" ≠ "" :=
  ⟨by decide, outcomes_ne_nil first second, by decide⟩

/-- A market as a prior target. -/
def priorTarget (market first second : String) (h : first ≠ second) : ContinuityTarget where
  venue := .polymarket
  venueMarketId := market
  canonicalClass := "soccer.moneyline_3way"
  subscriptionIds := [first, second]
  activationAt := 0
  captureStartAt := 0
  sourceRef := "catalog"
  complete := priorTarget_complete first second
  unique := outcomes_nodup h

section PriorBundle

variable {bundleId market first second : String} (hid : bundleId ≠ "") (h : first ≠ second)

include hid in
theorem priorBundle_complete :
    "run" ≠ "" ∧ bundleId ≠ "" ∧ [priorTarget market first second h] ≠ [] :=
  ⟨by decide, hid, List.cons_ne_nil _ _⟩

theorem priorBundle_distinct :
    ([priorTarget market first second h].map (·.leg.targetId)).Nodup :=
  List.nodup_singleton _

theorem priorBundle_agreed :
    ∀ t ∈ [priorTarget market first second h], t.activationAt = 0 := by
  intro t ht
  rw [List.mem_singleton.mp ht]
  rfl

end PriorBundle

/-- A market as a prior bundle of its own. -/
def priorBundle (bundleId market first second : String) (score : ℚ) (hid : bundleId ≠ "")
    (h : first ≠ second) : ContinuityBundle where
  baseRunId := "run"
  bundleId := bundleId
  activationAt := 0
  score := score
  targets := [priorTarget market first second h]
  complete := priorBundle_complete hid h
  distinct := priorBundle_distinct h
  agreed := priorBundle_agreed h

/-- The bundles of a generation, the first with the higher score. -/
def bundleA : ContinuityBundle := priorBundle "a" "1" "1" "2" 2 (by decide) (by decide)
def bundleB : ContinuityBundle := priorBundle "b" "2" "3" "4" 1 (by decide) (by decide)

theorem twoBundles_ids : ([bundleA, bundleB].map (·.bundleId)).Nodup := by decide

theorem twoBundles_targets :
    ([bundleA, bundleB].flatMap fun b => b.legs.map (·.targetId)).Nodup := by decide

def twoBundles : ContinuitySet := ⟨[bundleA, bundleB], twoBundles_ids, twoBundles_targets⟩

/-- Room for three subscriptions at each venue. -/
def threeSubscriptions (held : Bool) : Strategy := ⟨held, 28800, fun _ => 3, 5, none⟩

def candidateA : Candidate := marketCandidate "a" "1" "1" "2" (by decide)
def candidateB : Candidate := marketCandidate "b" "2" "3" "4" (by decide)
def candidateOther : Candidate := marketCandidate "b" "3" "5" "6" (by decide)

/-- The second of two unchanged bundles is trimmed. -/
theorem allocation_sound_sample : Sound (threeSubscriptions true) (fun _ _ => True) 0
    [candidateA, candidateB] twoBundles :=
  allocation_sound _ _ _ _ _ (by decide)

/-- A trimmed bundle is not reported as displaced, the ID of a superseded candidate is listed when its
    prior bundle is trimmed, and of two candidates with one ID both can be selected and listed. -/
theorem described_fails :
    ¬ Described (threeSubscriptions true) (fun _ _ => True) 0 [candidateA, candidateB]
        twoBundles ∧
      ¬ Described (threeSubscriptions true) (fun _ _ => True) 0 [candidateA, candidateOther]
        twoBundles ∧
      ¬ Described (threeSubscriptions false) (fun _ _ => True) 0 [candidateB, candidateOther]
        twoBundles := by
  refine ⟨fun h => ?_, fun h => ?_, fun h => ?_⟩
  · have hrefused : RefusedAfter (threeSubscriptions true) (fun _ _ => True) 0
        [candidateA, candidateB] twoBundles candidateB [candidateA.legs] :=
      ⟨by decide, ["a"], [], by decide, by decide⟩
    have hbudget : BudgetRejection (threeSubscriptions true) [candidateA.legs] candidateB :=
      ⟨by decide, by decide, by decide, by decide⟩
    have hdisplaced := (h.displaced candidateB (by decide) _ hrefused hbudget).mpr (by decide)
    revert hdisplaced
    decide
  · have hlisted : (selectTargets (threeSubscriptions true) (fun _ _ => True) 0
        [candidateA, candidateOther] twoBundles.bundles).allocationRejections
          candidateOther.bundleId ≠ none := by decide
    have hsuperseded : Superseded (threeSubscriptions true) (fun _ _ => True) 0
        [candidateA, candidateOther] twoBundles candidateOther := by
      unfold Superseded
      decide
    rcases h.settled candidateOther (by decide) with h | h | h
    · exact h.2.1 hsuperseded
    · exact hlisted h.2.2
    · exact h.2.1 hsuperseded
  · have hlisted : (selectTargets (threeSubscriptions false) (fun _ _ => True) 0
        [candidateB, candidateOther] twoBundles.bundles).allocationRejections
          candidateB.bundleId ≠ none := by decide
    have hselected : candidateB ∈ (selectTargets (threeSubscriptions false) (fun _ _ => True) 0
        [candidateB, candidateOther] twoBundles.bundles).selected := by decide
    rcases h.settled candidateB (by decide) with h | h | h
    · exact hlisted h.2.2
    · exact h.1 hselected
    · exact h.1 hselected

end PredictionIndexer.Targeter
