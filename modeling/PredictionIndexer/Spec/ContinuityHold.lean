import PredictionIndexer.Targeter.Selection

/-!
# The continuity hold

A greedy run over the surviving prior bundles alone (`keptBundles`) says which of them fit. The
allocation follows it whatever candidates there are: what it keeps it emits exactly as it was
(`Reaches`), and what the candidates add lies under other IDs. Only the report of a held bundle
compares with a candidate, and there the order of subscription IDs counts.

## Key results

- `hold_iff`: the hold keeps its promise exactly when no order gets in the way
-/

namespace PredictionIndexer.Targeter

/-! ## What fits -/

/-- The subscriptions of legs at a venue. -/
def subscriptions (legs : List Leg) (v : Venue) : Nat :=
  ((legs.filter (·.venue = v)).map (·.terms.subscriptionIds.length)).sum

/-- What bundles use of a venue's budget. -/
def usedBy (kept : List ContinuityBundle) (v : Venue) : Nat :=
  (kept.map fun b => subscriptions b.legs v).sum

/-- The bundle fits the remaining budgets and the bundle limit. -/
def fitsAfter (s : Strategy) (kept : List ContinuityBundle) (b : ContinuityBundle) : Bool :=
  (supportedVenues.all fun v => usedBy kept v + subscriptions b.legs v ≤ s.targetBudgets v) &&
    kept.length < s.maximumBundles

def keepNext (s : Strategy) (kept : List ContinuityBundle) (b : ContinuityBundle) :
    List ContinuityBundle :=
  if fitsAfter s kept b then kept ++ [b] else kept

/-- By recorded score, then ID. -/
def ContinuityBundle.Before (a b : ContinuityBundle) : Prop :=
  b.score < a.score ∨ (a.score = b.score ∧ a.bundleId ≤ b.bundleId)

instance : DecidableRel ContinuityBundle.Before := fun _ _ => inferInstanceAs (Decidable (_ ∨ _))

/-- The surviving bundles in order. -/
def survivors (s : Strategy) (now : Int) (prior : ContinuitySet) : List ContinuityBundle :=
  (protectedBundles s now prior.bundles).insertionSort ContinuityBundle.Before

/-- The surviving bundles that fit. No candidate has a say in it. -/
def keptBundles (s : Strategy) (now : Int) (prior : ContinuitySet) : List ContinuityBundle :=
  (survivors s now prior).foldl (keepNext s) []

/-! ## The promise -/

/-- The same terms, with the same set of subscription IDs. -/
def Terms.Same (t u : Terms) : Prop :=
  t.canonicalClass = u.canonicalClass ∧ (∀ id, id ∈ t.subscriptionIds ↔ id ∈ u.subscriptionIds) ∧
    t.activationAt = u.activationAt ∧ t.captureStartAt = u.captureStartAt ∧
    t.sourceRef = u.sourceRef

/-- The same targets. -/
def SameLegs (a b : List Leg) : Prop :=
  (∀ l ∈ a, ∃ m ∈ b, l.targetId = m.targetId ∧ l.terms.Same m.terms) ∧
    ∀ m ∈ b, ∃ l ∈ a, l.targetId = m.targetId ∧ l.terms.Same m.terms

/-- What a selection emits under a bundle's ID at a venue. -/
def emitted (r : SelectionResult) (b : ContinuityBundle) (v : Venue) : List SelectionTarget :=
  (r.targets v).filter (·.bundleId = b.bundleId)

/-- A currently eligible candidate has the bundle's ID and its targets. -/
def HasCurrent (candidates : List Candidate) (b : ContinuityBundle) : Prop :=
  ∃ c ∈ candidates, c.eligible = true ∧ c.bundleId = b.bundleId ∧ SameLegs c.legs b.legs

section Promise

variable (s : Strategy) (ranking : Candidate → Candidate → Prop) [DecidableRel ranking] (now : Int)
  (candidates : List Candidate) (prior : ContinuitySet)

/-- What the hold promises of one run. -/
structure Promise : Prop where
  absent : ∀ b ∈ prior.bundles,
    (∀ v, emitted (selectTargets s ranking now candidates prior.bundles) b v = []) →
    clampElapsed s now b = true ∨ b.allTerminal = true ∨
      b ∈ survivors s now prior ∧ b ∉ keptBundles s now prior
  exact : ∀ b ∈ keptBundles s now prior, ∀ v,
    ((emitted (selectTargets s ranking now candidates prior.bundles) b v).map
      fun t => (t.targetId, t.terms)).Perm
      ((b.legs.filter (·.venue = v)).map fun l => (l.targetId, l.terms))
  held : ∀ b ∈ keptBundles s now prior,
    (selectTargets s ranking now candidates prior.bundles).continuityDispositions b.bundleId =
      some .heldCurrentCandidate ↔ HasCurrent candidates b ∧ b.anyTerminal = false
  trimmed : ∀ b ∈ prior.bundles,
    (selectTargets s ranking now candidates prior.bundles).continuityDispositions b.bundleId =
      some .continuityBudgetTrimmed ↔
        b ∈ survivors s now prior ∧ b ∉ keptBundles s now prior
  independent : ∀ others : List Candidate, ∀ b ∈ prior.bundles,
    (selectTargets s ranking now candidates prior.bundles).continuityDispositions b.bundleId =
      some .continuityBudgetTrimmed ↔
    (selectTargets s ranking now others prior.bundles).continuityDispositions b.bundleId =
      some .continuityBudgetTrimmed

end Promise

/-! ## Equal targets -/

theorem targetMap_eq_some {legs : List Leg} (h : (legs.map (·.targetId)).Nodup) {id : String}
    {t : Terms} : targetMap legs id = some t ↔ ∃ l ∈ legs, l.targetId = id ∧ l.terms = t := by
  unfold targetMap
  rw [Option.map_eq_some_iff]
  constructor
  · rintro ⟨l, hl, rfl⟩
    have hmem := List.mem_of_find?_eq_some hl
    have hid := List.find?_some hl
    exact ⟨l, List.mem_reverse.mp hmem, by simpa using hid, rfl⟩
  · rintro ⟨l, hl, rfl, rfl⟩
    refine ⟨l, ?_, rfl⟩
    cases hfind : legs.reverse.find? (·.targetId = l.targetId) with
    | none =>
      have := List.find?_eq_none.mp hfind l (List.mem_reverse.mpr hl)
      simp at this
    | some m =>
      have hmem := List.mem_reverse.mp (List.mem_of_find?_eq_some hfind)
      have hid : m.targetId = l.targetId := by simpa using List.find?_some hfind
      rw [List.inj_on_of_nodup_map h hmem hl hid]

/-- The dictionaries are equal when the legs are. -/
theorem sameTargets_iff {a b : List Leg} (ha : (a.map (·.targetId)).Nodup)
    (hb : (b.map (·.targetId)).Nodup) : sameTargets a b = true ↔ ∀ l, l ∈ a ↔ l ∈ b := by
  have hkey {xs ys : List Leg} (hx : (xs.map (·.targetId)).Nodup) (hy : (ys.map (·.targetId)).Nodup)
      {l : Leg} (hl : l ∈ xs) (heq : targetMap xs l.targetId = targetMap ys l.targetId) :
      l ∈ ys := by
    rw [(targetMap_eq_some hx).mpr ⟨l, hl, rfl, rfl⟩, eq_comm, targetMap_eq_some hy] at heq
    obtain ⟨m, hm, hid, hterms⟩ := heq
    obtain ⟨hvenue, hmarket⟩ := Leg.targetId_inj hid
    have hlm : m = l := by
      cases m
      cases l
      simp_all
    exact hlm ▸ hm
  unfold sameTargets
  rw [List.all_eq_true]
  constructor
  · intro h l
    constructor
    · intro hl
      exact hkey ha hb hl (of_decide_eq_true (h l (List.mem_append_left _ hl)))
    · intro hl
      exact hkey hb ha hl (of_decide_eq_true (h l (List.mem_append_right _ hl))).symm
  · intro h l _
    rw [decide_eq_true_iff]
    apply Option.ext
    intro t
    rw [targetMap_eq_some ha, targetMap_eq_some hb]
    simp only [h]

theorem perm_of_sameTargets {a b : List Leg} (ha : (a.map (·.targetId)).Nodup)
    (hb : (b.map (·.targetId)).Nodup) (h : sameTargets a b = true) : a.Perm b :=
  (List.perm_ext_iff_of_nodup (List.Nodup.of_map _ ha) (List.Nodup.of_map _ hb)).mpr
    ((sameTargets_iff ha hb).mp h)

/-! ## Entries -/

/-- A bundle as the protected list holds it: its current candidate when it is held. -/
def entryOf (ranked : List Candidate) (b : ContinuityBundle) : ProtectedEntry :=
  ⟨b.score, b.bundleId, match heldCandidate ranked b with
    | some c => .inl c
    | none => .inr b⟩

/-- The legs that an entry claims. -/
def ProtectedEntry.legs (e : ProtectedEntry) : List Leg :=
  match e.item with
  | .inl c => c.legs
  | .inr b => b.legs

theorem heldCandidate_eq_some {ranked : List Candidate} {b : ContinuityBundle} {c : Candidate} :
    heldCandidate ranked b = some c ↔
      currentOf ranked b.bundleId = some c ∧ (∀ l, l ∈ c.legs ↔ l ∈ b.legs) ∧
        b.anyTerminal = false := by
  rw [heldCandidate, Option.filter_eq_some_iff, Bool.and_eq_true, Bool.not_eq_true',
    sameTargets_iff c.legs_distinct b.legs_distinct]

/-- Whatever entry a bundle has, it claims the bundle's legs. -/
theorem entryOf_legs (ranked : List Candidate) (b : ContinuityBundle) :
    (entryOf ranked b).legs.Perm b.legs := by
  unfold entryOf ProtectedEntry.legs
  cases h : heldCandidate ranked b with
  | none => exact List.Perm.refl _
  | some c =>
    have hsame := (heldCandidate_eq_some.mp h).2.1
    exact (List.perm_ext_iff_of_nodup (List.Nodup.of_map _ c.legs_distinct)
      (List.Nodup.of_map _ b.legs_distinct)).mpr hsame

/-- The order of entries is the order of their keys. -/
def ProtectedEntry.key (e : ProtectedEntry) : Lex (ℚᵒᵈ × String) :=
  toLex (OrderDual.toDual e.score, e.bundleId)

theorem ProtectedEntry.before_iff {a b : ProtectedEntry} : a.Before b ↔ a.key ≤ b.key := by
  rw [key, key, Prod.Lex.toLex_le_toLex]
  rfl

instance : Std.Total ProtectedEntry.Before := ⟨fun a b => by
  simpa only [ProtectedEntry.before_iff] using le_total a.key b.key⟩

instance : IsTrans ProtectedEntry ProtectedEntry.Before := ⟨fun _ _ _ => by
  simpa only [ProtectedEntry.before_iff] using le_trans⟩

/-- Entries of one key have one ID. -/
theorem ProtectedEntry.bundleId_of_before {a b : ProtectedEntry} (h : a.Before b)
    (h' : b.Before a) : a.bundleId = b.bundleId := by
  rw [before_iff] at h h'
  exact congrArg (fun k => (ofLex k).2) (le_antisymm h h')

/-- The held entries and then the retained ones are the entries of all bundles. -/
theorem entries_perm (ranked : List Candidate) (bundles : List ContinuityBundle) :
    ((bundles.filterMap fun b =>
        (heldCandidate ranked b).map fun c => ProtectedEntry.mk b.score b.bundleId (.inl c)) ++
      (bundles.filter fun b => (heldCandidate ranked b).isNone).map fun b =>
        ProtectedEntry.mk b.score b.bundleId (.inr b)).Perm (bundles.map (entryOf ranked)) := by
  induction bundles with
  | nil => exact List.Perm.refl _
  | cons b bundles ih =>
    cases h : heldCandidate ranked b with
    | some c => simpa [entryOf, h] using ih
    | none => simpa [entryOf, h] using List.perm_middle.trans (ih.cons _)

theorem inj_of_ids {bundles : List ContinuityBundle} (hids : (bundles.map (·.bundleId)).Nodup)
    {b c : ContinuityBundle} (hb : b ∈ bundles) (hc : c ∈ bundles) (h : b.bundleId = c.bundleId) :
    b = c :=
  List.inj_on_of_nodup_map hids hb hc h

/-- The protected list goes through the bundles in their own order. -/
theorem protectedEntries_eq {s : Strategy} {now : Int} {bundles : List ContinuityBundle}
    (hids : (bundles.map (·.bundleId)).Nodup) (ranked : List Candidate) :
    protectedEntries s now bundles ranked =
      ((protectedBundles s now bundles).insertionSort ContinuityBundle.Before).map
        (entryOf ranked) := by
  unfold protectedEntries
  rw [List.map_insertionSort ContinuityBundle.Before ProtectedEntry.Before (entryOf ranked)
    (protectedBundles s now bundles) (fun _ _ _ _ => Iff.rfl)]
  refine List.Perm.eq_of_pairwise ?_ (List.pairwise_insertionSort _ _)
    (List.pairwise_insertionSort _ _) ?_
  · intro a b ha hb hab hba
    have hid := ProtectedEntry.bundleId_of_before hab hba
    have hperm := entries_perm ranked (protectedBundles s now bundles)
    rw [List.mem_insertionSort] at ha hb
    obtain ⟨x, hx, rfl⟩ := List.mem_map.mp (hperm.mem_iff.mp ha)
    obtain ⟨y, hy, rfl⟩ := List.mem_map.mp hb
    rw [inj_of_ids hids (List.mem_filter.mp hx).1 (List.mem_filter.mp hy).1 hid]
  · exact ((List.perm_insertionSort _ _).trans (entries_perm ranked _)).trans
      (List.perm_insertionSort _ _).symm

/-! ## Adding legs -/

namespace Allocation

variable (a : Allocation) (bundleId : String) (score : ℚ)

theorem addLeg_frame (l : Leg) :
    (a.addLeg bundleId score l).selected = a.selected ∧
      (a.addLeg bundleId score l).selectedRetained = a.selectedRetained ∧
      (a.addLeg bundleId score l).continuityDispositions = a.continuityDispositions := by
  unfold addLeg
  split <;> exact ⟨rfl, rfl, rfl⟩

theorem addLegs_frame (legs : List Leg) :
    (a.addLegs bundleId score legs).selected = a.selected ∧
      (a.addLegs bundleId score legs).selectedRetained = a.selectedRetained ∧
      (a.addLegs bundleId score legs).continuityDispositions = a.continuityDispositions := by
  induction legs generalizing a with
  | nil => exact ⟨rfl, rfl, rfl⟩
  | cons l legs ih =>
    have hstep := a.addLeg_frame bundleId score l
    have hrest := ih (a.addLeg bundleId score l)
    exact ⟨hrest.1.trans hstep.1, hrest.2.1.trans hstep.2.1, hrest.2.2.trans hstep.2.2⟩

/-- The legs are new, and none is there twice. -/
def Fresh (legs : List Leg) : Prop :=
  (legs.map (·.targetId)).Nodup ∧ ∀ l ∈ legs, l.targetId ∉ a.selectedTargetIds l.venue

theorem increments_eq {legs : List Leg} (h : a.Fresh legs) (v : Venue) :
    a.increments legs v = subscriptions legs v := by
  unfold increments subscriptions
  congr 2
  refine List.filter_congr fun l hl => ?_
  have hnew := h.2 l hl
  by_cases hv : l.venue = v
  · subst hv
    simp [hnew]
  · simp [hv]

/-- What one new leg adds at a venue. -/
theorem addLeg_fresh {l : Leg} (h : l.targetId ∉ a.selectedTargetIds l.venue) (v : Venue) :
    (a.addLeg bundleId score l).selectedTargetIds v =
        a.selectedTargetIds v ++ ([l].filter (·.venue = v)).map (·.targetId) ∧
      (a.addLeg bundleId score l).budgetUsed v = a.budgetUsed v + subscriptions [l] v ∧
      (a.addLeg bundleId score l).targets v = a.targets v ++
        ([l].filter (·.venue = v)).map fun l => ⟨l.targetId, bundleId, l.terms, score⟩ := by
  unfold addLeg subscriptions
  rw [if_neg h]
  by_cases hv : l.venue = v
  · subst hv
    simp
  · simp [hv, Function.update_of_ne (Ne.symm hv)]

theorem Fresh.tail {a : Allocation} {l : Leg} {legs : List Leg} (h : a.Fresh (l :: legs)) :
    (a.addLeg bundleId score l).Fresh legs := by
  have hnodup := List.nodup_cons.mp h.1
  refine ⟨hnodup.2, fun m hm hmem => ?_⟩
  rw [(a.addLeg_fresh bundleId score (h.2 l List.mem_cons_self) m.venue).1, List.mem_append]
    at hmem
  rcases hmem with hmem | hmem
  · exact h.2 m (List.mem_cons_of_mem _ hm) hmem
  · obtain ⟨x, hx, hid⟩ := List.mem_map.mp hmem
    have hxl := List.mem_singleton.mp (List.mem_filter.mp hx).1
    subst hxl
    exact hnodup.1 (List.mem_map.mpr ⟨m, hm, hid.symm⟩)

/-- What new legs add at a venue. -/
theorem addLegs_fresh {legs : List Leg} (h : a.Fresh legs) (v : Venue) :
    (a.addLegs bundleId score legs).selectedTargetIds v =
        a.selectedTargetIds v ++ (legs.filter (·.venue = v)).map (·.targetId) ∧
      (a.addLegs bundleId score legs).budgetUsed v = a.budgetUsed v + subscriptions legs v ∧
      (a.addLegs bundleId score legs).targets v = a.targets v ++
        (legs.filter (·.venue = v)).map fun l => ⟨l.targetId, bundleId, l.terms, score⟩ := by
  induction legs generalizing a with
  | nil => simp [addLegs, subscriptions]
  | cons l legs ih =>
    obtain ⟨hids, hused, htargets⟩ := ih (a.addLeg bundleId score l) (h.tail bundleId score)
    obtain ⟨hid, huse, htarget⟩ := a.addLeg_fresh bundleId score (h.2 l List.mem_cons_self) v
    have hfilter : (l :: legs).filter (fun x => x.venue = v) =
        [l].filter (fun x => x.venue = v) ++ legs.filter (fun x => x.venue = v) := by
      rw [← List.singleton_append, List.filter_append]
    refine ⟨?_, ?_, ?_⟩
    · rw [hfilter, List.map_append, ← List.append_assoc, ← hid, ← hids]
      rfl
    · have hsum : subscriptions (l :: legs) v = subscriptions [l] v + subscriptions legs v := by
        unfold subscriptions
        rw [hfilter, List.map_append, List.sum_append]
      rw [hsum, ← Nat.add_assoc, ← huse, ← hused]
      rfl
    · rw [hfilter, List.map_append, ← List.append_assoc, ← htarget, ← htargets]
      rfl

end Allocation

/-! ## The protected allocation -/

/-- A bundle's legs at a venue, under its ID. -/
def owned (v : Venue) (b : ContinuityBundle) : List (String × String × Terms) :=
  (b.legs.filter (·.venue = v)).map fun l => (b.bundleId, l.targetId, l.terms)

/-- What the allocation is after the bundles of `seen`, of which it keeps `kept`. -/
structure Reaches (initial : String → Option Disposition) (a : Allocation)
    (seen kept : List ContinuityBundle) : Prop where
  sub : kept.Sublist seen
  used : ∀ v, a.budgetUsed v = usedBy kept v
  count : a.bundleCount = kept.length
  ids : ∀ v id, id ∈ a.selectedTargetIds v →
    ∃ b ∈ kept, id ∈ b.legs.map (·.targetId)
  targets : ∀ v, ((a.targets v).map fun t => (t.bundleId, t.targetId, t.terms)).Perm
    (kept.flatMap (owned v))
  dispositions : ∀ id, a.continuityDispositions id =
    if ∃ b ∈ seen, b.bundleId = id ∧ b ∉ kept then some .continuityBudgetTrimmed else initial id

theorem reaches_start (initial : String → Option Disposition) :
    Reaches initial { continuityDispositions := initial } [] [] where
  sub := List.Sublist.refl _
  used _ := rfl
  count := rfl
  ids _ _ h := nomatch h
  targets _ := List.Perm.refl _
  dispositions _ := by simp

section Step

variable {s : Strategy} {ranked : List Candidate} {initial : String → Option Disposition}
  {a : Allocation} {seen kept : List ContinuityBundle} {b : ContinuityBundle}

theorem subscriptions_perm {xs ys : List Leg} (h : xs.Perm ys) (v : Venue) :
    subscriptions xs v = subscriptions ys v :=
  ((h.filter _).map _).sum_eq

/-- The legs of the next entry are new. -/
theorem Reaches.fresh (h : Reaches initial a seen kept)
    (hdisjoint : ((seen ++ [b]).flatMap fun b => b.legs.map (·.targetId)).Nodup) :
    a.Fresh (entryOf ranked b).legs := by
  rw [List.flatMap_append, List.nodup_append] at hdisjoint
  have hperm := entryOf_legs ranked b
  refine ⟨(hperm.map _).nodup_iff.mpr b.legs_distinct, fun l hl hmem => ?_⟩
  obtain ⟨c, hc, hid⟩ := h.ids _ _ hmem
  refine hdisjoint.2.2 _ (List.mem_flatMap.mpr ⟨c, h.sub.subset hc, hid⟩) l.targetId ?_ rfl
  simpa using ⟨l, hperm.mem_iff.mp hl, rfl⟩

/-- An entry fits the allocation exactly when its bundle fits behind the kept ones. -/
theorem Reaches.fits_iff (h : Reaches initial a seen kept)
    (hfresh : a.Fresh (entryOf ranked b).legs) :
    (!a.fits s (a.increments (entryOf ranked b).legs) || a.bundleCount ≥ s.maximumBundles) =
      !fitsAfter s kept b := by
  have hincrements : a.increments (entryOf ranked b).legs = subscriptions b.legs :=
    funext fun v => (a.increments_eq hfresh v).trans (subscriptions_perm (entryOf_legs ranked b) v)
  unfold Allocation.fits fitsAfter
  rw [hincrements, h.count, Bool.not_and]
  simp only [h.used]
  congr 1
  rw [← decide_not, decide_eq_decide]
  omega

/-- Which IDs are trimmed does not change with a bundle that is kept. -/
theorem listed_keep (hb : b.bundleId ∉ seen.map (·.bundleId)) (id : String) :
    (∃ c ∈ seen ++ [b], c.bundleId = id ∧ c ∉ kept ++ [b]) ↔
      ∃ c ∈ seen, c.bundleId = id ∧ c ∉ kept := by
  constructor
  · rintro ⟨c, hc, hid, hnot⟩
    simp only [List.mem_append, List.mem_singleton, not_or] at hc hnot
    exact ⟨c, hc.resolve_right hnot.2, hid, hnot.1⟩
  · rintro ⟨c, hc, hid, hnot⟩
    have hcb : c ≠ b := fun hcb => hb (hcb ▸ List.mem_map_of_mem hc)
    exact ⟨c, List.mem_append_left _ hc, hid, by simp [hnot, hcb]⟩

/-- With a bundle that is not kept, only its own ID is new. -/
theorem listed_trim {id : String} (hid : id ≠ b.bundleId) :
    (∃ c ∈ seen ++ [b], c.bundleId = id ∧ c ∉ kept) ↔
      ∃ c ∈ seen, c.bundleId = id ∧ c ∉ kept := by
  constructor
  · rintro ⟨c, hc, hcid, hnot⟩
    refine ⟨c, (List.mem_append.mp hc).resolve_right fun hcb => hid ?_, hcid, hnot⟩
    rw [← hcid, List.mem_singleton.mp hcb]
  · rintro ⟨c, hc, hcid, hnot⟩
    exact ⟨c, List.mem_append_left _ hc, hcid, hnot⟩

/-- The allocation of a kept entry, whichever kind it is. -/
theorem protect_kept (hfits : (!a.fits s (a.increments (entryOf ranked b).legs) ||
      a.bundleCount ≥ s.maximumBundles) = false) :
    ∃ start : Allocation, ∃ score, a.protect s (entryOf ranked b) =
        start.addLegs b.bundleId score (entryOf ranked b).legs ∧
      start.budgetUsed = a.budgetUsed ∧ start.selectedTargetIds = a.selectedTargetIds ∧
      start.targets = a.targets ∧ start.continuityDispositions = a.continuityDispositions ∧
      start.bundleCount = a.bundleCount + 1 := by
  cases h : heldCandidate ranked b with
  | some c =>
    have he : entryOf ranked b = ⟨b.score, b.bundleId, .inl c⟩ := by simp only [entryOf, h]
    rw [he] at hfits ⊢
    have heq : a.protect s ⟨b.score, b.bundleId, .inl c⟩ =
        { a with selected := a.selected ++ [c] }.addLegs b.bundleId c.score c.legs :=
      if_neg (ne_true_of_eq_false hfits)
    refine ⟨_, _, heq, rfl, rfl, rfl, rfl, ?_⟩
    simp only [Allocation.bundleCount, List.length_append, List.length_singleton]
    omega
  | none =>
    have he : entryOf ranked b = ⟨b.score, b.bundleId, .inr b⟩ := by simp only [entryOf, h]
    rw [he] at hfits ⊢
    have heq : a.protect s ⟨b.score, b.bundleId, .inr b⟩ =
        { a with selectedRetained := a.selectedRetained ++ [b] }.addLegs b.bundleId b.score
          b.legs :=
      if_neg (ne_true_of_eq_false hfits)
    refine ⟨_, _, heq, rfl, rfl, rfl, rfl, ?_⟩
    simp only [Allocation.bundleCount, List.length_append, List.length_singleton]
    omega

theorem Reaches.keep (h : Reaches initial a seen kept) (hb : b.bundleId ∉ seen.map (·.bundleId))
    (hfresh : a.Fresh (entryOf ranked b).legs) (hfits : fitsAfter s kept b = true) :
    Reaches initial (a.protect s (entryOf ranked b)) (seen ++ [b]) (kept ++ [b]) := by
  have hguard := h.fits_iff (s := s) hfresh
  rw [hfits, Bool.not_true] at hguard
  obtain ⟨start, score, heq, hused, hselected, htargets, hdispositions, hcount⟩ :=
    protect_kept hguard
  have hperm := entryOf_legs ranked b
  have hnew : start.Fresh (entryOf ranked b).legs := ⟨hfresh.1, by rw [hselected]; exact hfresh.2⟩
  have hframe := start.addLegs_frame b.bundleId score (entryOf ranked b).legs
  have hadded := start.addLegs_fresh b.bundleId score hnew
  rw [heq]
  exact {
    sub := h.sub.append (List.Sublist.refl _)
    used := fun v => by
      rw [(hadded v).2.1, hused, h.used, subscriptions_perm hperm]
      simp [usedBy]
    count := by
      rw [Allocation.bundleCount, hframe.1, hframe.2.1, List.length_append, ← h.count]
      exact hcount
    ids := fun v id hid => by
      rw [(hadded v).1, hselected, List.mem_append] at hid
      rcases hid with hid | hid
      · obtain ⟨c, hc, hmem⟩ := h.ids v id hid
        exact ⟨c, List.mem_append_left _ hc, hmem⟩
      · obtain ⟨l, hl, rfl⟩ := List.mem_map.mp hid
        have hlb := hperm.mem_iff.mp (List.mem_filter.mp hl).1
        exact ⟨b, by simp, List.mem_map_of_mem hlb⟩
    targets := fun v => by
      rw [(hadded v).2.2, htargets, List.map_append, List.flatMap_append, List.map_map]
      refine (h.targets v).append ?_
      simpa [owned, Function.comp_def] using (hperm.filter (·.venue = v)).map
        fun l => (b.bundleId, l.targetId, l.terms)
    dispositions := fun id => by
      rw [hframe.2.2, hdispositions, h.dispositions]
      exact if_congr (listed_keep hb id).symm rfl rfl }

theorem Reaches.trim (h : Reaches initial a seen kept) (hb : b.bundleId ∉ seen.map (·.bundleId))
    (hfresh : a.Fresh (entryOf ranked b).legs) (hfits : fitsAfter s kept b = false) :
    Reaches initial (a.protect s (entryOf ranked b)) (seen ++ [b]) kept := by
  have hguard := h.fits_iff (s := s) hfresh
  rw [hfits, Bool.not_false] at hguard
  have heq : a.protect s (entryOf ranked b) =
      (a.reject b.bundleId .continuityBudgetTrimmed).dispose b.bundleId
        .continuityBudgetTrimmed := by
    unfold Allocation.protect
    exact if_pos hguard
  rw [heq]
  exact {
    sub := h.sub.trans (List.sublist_append_left _ _)
    used := h.used
    count := h.count
    ids := h.ids
    targets := h.targets
    dispositions := fun id => by
      have hbkept : b ∉ kept := fun hmem => hb (List.mem_map_of_mem (h.sub.subset hmem))
      simp only [Allocation.dispose, Allocation.reject]
      by_cases hid : id = b.bundleId
      · subst hid
        rw [Function.update_self, if_pos ⟨b, by simp, rfl, hbkept⟩]
      · rw [Function.update_of_ne hid, h.dispositions]
        exact if_congr (listed_trim hid).symm rfl rfl }

end Step

/-- What every round preserves holds after the bundles, in order. -/
theorem protect_run {s : Strategy} {ranked : List Candidate}
    {initial : String → Option Disposition}
    {P : Allocation → List ContinuityBundle → List ContinuityBundle → Prop}
    (reaches : ∀ {a seen kept}, P a seen kept → Reaches initial a seen kept)
    (keep : ∀ {a seen kept b}, P a seen kept → b.bundleId ∉ seen.map (·.bundleId) →
      a.Fresh (entryOf ranked b).legs → fitsAfter s kept b = true →
      P (a.protect s (entryOf ranked b)) (seen ++ [b]) (kept ++ [b]))
    (trim : ∀ {a seen kept b}, P a seen kept → b.bundleId ∉ seen.map (·.bundleId) →
      a.Fresh (entryOf ranked b).legs → fitsAfter s kept b = false →
      P (a.protect s (entryOf ranked b)) (seen ++ [b]) kept)
    (rest : List ContinuityBundle) {a : Allocation} {seen kept : List ContinuityBundle}
    (h : P a seen kept) (hids : ((seen ++ rest).map (·.bundleId)).Nodup)
    (hdisjoint : ((seen ++ rest).flatMap fun b => b.legs.map (·.targetId)).Nodup) :
    P (rest.foldl (fun a b => a.protect s (entryOf ranked b)) a) (seen ++ rest)
      (rest.foldl (keepNext s) kept) := by
  induction rest generalizing a seen kept with
  | nil => simpa using h
  | cons b rest ih =>
    have hsplit : seen ++ b :: rest = (seen ++ [b]) ++ rest := by simp
    rw [hsplit] at hids hdisjoint ⊢
    have hb : b.bundleId ∉ seen.map (·.bundleId) := by
      intro hmem
      rw [List.append_assoc, List.map_append, List.nodup_append] at hids
      exact hids.2.2 _ hmem _ (by simp) rfl
    have hfresh : a.Fresh (entryOf ranked b).legs := by
      rw [List.flatMap_append] at hdisjoint
      exact (reaches h).fresh (List.nodup_append.mp hdisjoint).1
    refine ih ?_ hids hdisjoint
    unfold keepNext
    cases hfits : fitsAfter s kept b with
    | true => exact keep h hb hfresh hfits
    | false => exact trim h hb hfresh hfits

/-! ## The additive candidates -/

namespace Allocation

/-- Nothing under these IDs is touched, and no disposition. -/
def Untouched (ids : Set String) (a a' : Allocation) : Prop :=
  (∀ id ∈ ids, ∀ v,
    (a'.targets v).filter (·.bundleId = id) = (a.targets v).filter (·.bundleId = id)) ∧
    a'.continuityDispositions = a.continuityDispositions

variable {ids : Set String}

theorem Untouched.refl (a : Allocation) : Untouched ids a a :=
  ⟨fun _ _ _ => rfl, rfl⟩

theorem Untouched.trans {a b c : Allocation} (h : Untouched ids a b) (h' : Untouched ids b c) :
    Untouched ids a c :=
  ⟨fun id hid v => (h'.1 id hid v).trans (h.1 id hid v), h'.2.trans h.2⟩

theorem addLeg_untouched (a : Allocation) {bundleId : String} (hnot : bundleId ∉ ids) (score : ℚ)
    (l : Leg) : Untouched ids a (a.addLeg bundleId score l) := by
  refine ⟨fun id hid v => ?_, (a.addLeg_frame bundleId score l).2.2⟩
  have hne : bundleId ≠ id := fun h => hnot (h ▸ hid)
  unfold addLeg
  split
  · rfl
  · by_cases hv : v = l.venue
    · subst hv
      simp [hne]
    · simp [Function.update_of_ne hv]

theorem addLegs_untouched (a : Allocation) {bundleId : String} (hnot : bundleId ∉ ids) (score : ℚ)
    (legs : List Leg) : Untouched ids a (a.addLegs bundleId score legs) := by
  induction legs generalizing a with
  | nil => exact Untouched.refl a
  | cons l legs ih => exact (a.addLeg_untouched hnot score l).trans (ih _)

theorem rejectAll_untouched (a : Allocation) (reason : AllocationRejection) (cs : List Candidate) :
    Untouched ids a (cs.foldl (fun a c => a.reject c.bundleId reason) a) := by
  induction cs generalizing a with
  | nil => exact Untouched.refl a
  | cons c cs ih => exact ih (a.reject c.bundleId reason)

/-- Candidates of other IDs leave what is allocated under these. -/
theorem add_untouched (ids : Set String) (s : Strategy) (protectedSelected : Bool)
    (protectedUsed : Venue → Nat) (a : Allocation) {cs : List Candidate} (hnot : ∀ c ∈ cs, c.bundleId ∉ ids) :
    Untouched ids a (a.add s protectedSelected protectedUsed cs) := by
  induction cs generalizing a with
  | nil => exact Untouched.refl a
  | cons c cs ih =>
    have hrest := fun a => ih a fun d hd => hnot d (List.mem_cons_of_mem _ hd)
    unfold add
    split
    · exact hrest (a.reject c.bundleId _)
    · have hadd := addLegs_untouched { a with selected := a.selected ++ [c] }
        (hnot c List.mem_cons_self) c.score c.legs
      simp only
      split
      · exact hadd.trans (rejectAll_untouched _ _ cs)
      · exact hadd.trans (hrest _)

end Allocation

/-! ## The whole run -/

/-- The last of the updates counts, and there is one for each key. -/
theorem foldl_update_of_mem {α β : Type} {key : α → String} (g : α → β) {xs : List α}
    (hkeys : (xs.map key).Nodup) {x : α} (hx : x ∈ xs) (f : String → Option β) :
    xs.foldl (fun f x => Function.update f (key x) (some (g x))) f (key x) = some (g x) := by
  have hother (ys : List α) (f : String → Option β) {k : String} (hk : k ∉ ys.map key) :
      ys.foldl (fun f x => Function.update f (key x) (some (g x))) f k = f k := by
    induction ys generalizing f with
    | nil => rfl
    | cons y ys ih =>
      rw [List.map_cons, List.mem_cons, not_or] at hk
      rw [List.foldl_cons, ih _ hk.2, Function.update_of_ne hk.1]
  induction xs generalizing f with
  | nil => exact absurd hx List.not_mem_nil
  | cons y ys ih =>
    obtain ⟨hy, hys⟩ := List.nodup_cons.mp hkeys
    rw [List.foldl_cons]
    by_cases hxy : x ∈ ys
    · exact ih hys hxy _
    · have heq : x = y := (List.mem_cons.mp hx).resolve_right hxy
      rw [heq, hother ys _ hy, Function.update_self]

/-- Only one kept bundle owns anything under an ID. -/
theorem owned_of_mem (v : Venue) {kept : List ContinuityBundle}
    (hids : (kept.map (·.bundleId)).Nodup) {b : ContinuityBundle} (hb : b ∈ kept) :
    (kept.flatMap (owned v)).filter (·.1 = b.bundleId) = owned v b := by
  have hself (c : ContinuityBundle) : (owned v c).filter (·.1 = b.bundleId) =
      if c.bundleId = b.bundleId then owned v c else [] := by
    unfold owned
    rw [List.filter_map]
    by_cases h : c.bundleId = b.bundleId <;> simp [h, Function.comp_def]
  have hnone {rest : List ContinuityBundle} (hnot : b.bundleId ∉ rest.map (·.bundleId)) :
      (rest.flatMap (owned v)).filter (·.1 = b.bundleId) = [] := by
    rw [List.filter_flatMap, List.flatMap_eq_nil_iff]
    intro c hc
    have hne : c.bundleId ≠ b.bundleId := fun h => hnot (h ▸ List.mem_map_of_mem hc)
    rw [hself, if_neg hne]
  induction kept with
  | nil => exact absurd hb List.not_mem_nil
  | cons c rest ih =>
    obtain ⟨hc, hrest⟩ := List.nodup_cons.mp hids
    rw [List.flatMap_cons, List.filter_append, hself]
    rcases List.mem_cons.mp hb with rfl | hb
    · rw [if_pos rfl, hnone hc, List.append_nil]
    · have hne : c.bundleId ≠ b.bundleId := fun h => hc (List.mem_map.mpr ⟨b, hb, h.symm⟩)
      rw [if_neg hne, ih hrest hb, List.nil_append]

section Run

variable (s : Strategy) (ranking : Candidate → Candidate → Prop) [DecidableRel ranking] (now : Int)
  (candidates : List Candidate) (prior : ContinuitySet)

theorem mem_survivors {b : ContinuityBundle} :
    b ∈ survivors s now prior ↔ b ∈ prior.bundles ∧ retirement s now b = .retained := by
  simp [survivors, protectedBundles]

theorem survivors_perm :
    (survivors s now prior).Perm (protectedBundles s now prior.bundles) :=
  List.perm_insertionSort _ _

theorem survivors_ids : ((survivors s now prior).map (·.bundleId)).Nodup := by
  have hsub : (protectedBundles s now prior.bundles).Sublist prior.bundles := List.filter_sublist
  exact ((survivors_perm s now prior).map _).nodup_iff.mpr (prior.ids.sublist (hsub.map _))

/-- The surviving bundles share no target. -/
theorem survivors_disjoint :
    ((survivors s now prior).flatMap fun b => b.legs.map (·.targetId)).Nodup := by
  have hsub : (protectedBundles s now prior.bundles).Sublist prior.bundles := List.filter_sublist
  exact ((survivors_perm s now prior).flatMap_right _).nodup_iff.mpr
    (prior.targets.sublist (hsub.flatMap _))

/-- The allocation behind the protected list is the greedy run's. -/
theorem protectedAllocation_reaches (ranked : List Candidate) :
    Reaches (initialDispositions s now prior.bundles ranked)
      (protectedAllocation s now prior.bundles ranked) (survivors s now prior)
      (keptBundles s now prior) := by
  unfold protectedAllocation
  rw [protectedEntries_eq prior.ids, List.foldl_map]
  exact protect_run (fun h => h) Reaches.keep Reaches.trim (survivors s now prior)
    (reaches_start _) (survivors_ids s now prior) (survivors_disjoint s now prior)

theorem keptBundles_sub : (keptBundles s now prior).Sublist (survivors s now prior) :=
  (protectedAllocation_reaches s now prior []).sub

variable {s now prior}

theorem mem_of_mem_kept {b : ContinuityBundle} (hb : b ∈ keptBundles s now prior) :
    b ∈ prior.bundles ∧ retirement s now b = .retained :=
  (mem_survivors s now prior).mp ((keptBundles_sub s now prior).subset hb)

/-- The candidate found under a bundle's ID is eligible now. -/
theorem hasCurrent_of_currentOf {b : ContinuityBundle} {c : Candidate}
    (hc : currentOf (ranked ranking candidates) b.bundleId = some c)
    (hlegs : ∀ l, l ∈ c.legs ↔ l ∈ b.legs) : HasCurrent candidates b := by
  have hmem := List.mem_of_find?_eq_some hc
  have hid := List.find?_some hc
  rw [List.mem_reverse, ranked, List.mem_insertionSort, List.mem_filter] at hmem
  have hself (t : Terms) : t.Same t := ⟨rfl, fun _ => Iff.rfl, rfl, rfl, rfl⟩
  exact ⟨c, hmem.1, hmem.2, of_decide_eq_true hid,
    fun l hl => ⟨l, (hlegs l).mp hl, rfl, hself _⟩, fun l hl => ⟨l, (hlegs l).mpr hl, rfl, hself _⟩⟩

variable (hhold : s.continuityHoldEnabled = true)
include hhold

/-- Behind the protected allocation, nothing under a protected ID changes. -/
theorem emitted_perm {b : ContinuityBundle} (hb : b ∈ survivors s now prior) (v : Venue) :
    (emitted (selectTargets s ranking now candidates prior.bundles) b v).Perm
      (((protectedAllocation s now prior.bundles (ranked ranking candidates)).targets v).filter
        (·.bundleId = b.bundleId)) := by
  unfold emitted selectTargets
  simp only [hhold, if_true]
  refine ((List.perm_insertionSort _ _).filter _).trans (List.Perm.of_eq ?_)
  refine (Allocation.add_untouched {b.bundleId} s _ _ _ ?_).1 b.bundleId rfl v
  intro c hc hid
  have hprotected : b ∈ protectedBundles s now prior.bundles := by
    simpa [survivors] using hb
  simp only [additive, List.mem_filter, decide_eq_true_eq] at hc
  exact hc.2 (hid ▸ List.mem_map_of_mem hprotected)

/-- A disposition is that of the protected allocation. -/
theorem dispositions_eq :
    (selectTargets s ranking now candidates prior.bundles).continuityDispositions =
      (protectedAllocation s now prior.bundles
        (ranked ranking candidates)).continuityDispositions := by
  unfold selectTargets
  simp only [hhold, if_true]
  exact (Allocation.add_untouched ∅ s _ _ _ fun _ _ => Set.notMem_empty _).2

/-- What a bundle is reported as. -/
theorem disposition_of_mem {b : ContinuityBundle} (hb : b ∈ prior.bundles) :
    (selectTargets s ranking now candidates prior.bundles).continuityDispositions b.bundleId =
      if b ∈ survivors s now prior ∧ b ∉ keptBundles s now prior then
        some .continuityBudgetTrimmed
      else if retirement s now b = .retained ∧
          (heldCandidate (ranked ranking candidates) b).isSome then some .heldCurrentCandidate
      else some (retirement s now b) := by
  have hreaches := protectedAllocation_reaches s now prior (ranked ranking candidates)
  rw [dispositions_eq ranking candidates hhold, hreaches.dispositions]
  refine if_congr ⟨?_, fun h => ⟨b, h.1, rfl, h.2⟩⟩ rfl ?_
  · rintro ⟨c, hc, hid, hnot⟩
    have hcb : c = b := inj_of_ids prior.ids ((mem_survivors s now prior).mp hc).1 hb hid
    exact hcb ▸ ⟨hc, hnot⟩
  · unfold initialDispositions
    rw [foldl_update_of_mem _ prior.ids hb]
    split <;> rfl

theorem trimmed_iff {b : ContinuityBundle} (hb : b ∈ prior.bundles) :
    (selectTargets s ranking now candidates prior.bundles).continuityDispositions b.bundleId =
        some .continuityBudgetTrimmed ↔
      b ∈ survivors s now prior ∧ b ∉ keptBundles s now prior := by
  rw [disposition_of_mem ranking candidates hhold hb]
  split
  · simp_all
  · rename_i hnot
    have hretirement : retirement s now b ≠ .continuityBudgetTrimmed := by
      unfold retirement
      split
      · decide
      · split <;> decide
    split <;> simp [hretirement, hnot]

/-- A kept bundle is reported held when the candidate found under its ID has its very legs. -/
theorem held_iff {b : ContinuityBundle} (hb : b ∈ keptBundles s now prior) :
    (selectTargets s ranking now candidates prior.bundles).continuityDispositions b.bundleId =
        some .heldCurrentCandidate ↔
      (∃ c, currentOf (ranked ranking candidates) b.bundleId = some c ∧
        ∀ l, l ∈ c.legs ↔ l ∈ b.legs) ∧ b.anyTerminal = false := by
  obtain ⟨hprior, hretained⟩ := mem_of_mem_kept hb
  rw [disposition_of_mem ranking candidates hhold hprior, if_neg fun h => h.2 hb]
  simp only [hretained, true_and]
  cases h : heldCandidate (ranked ranking candidates) b with
  | some c =>
    have hsame := heldCandidate_eq_some.mp h
    simp only [Option.isSome_some, if_true, true_iff]
    exact ⟨⟨c, hsame.1, hsame.2.1⟩, hsame.2.2⟩
  | none =>
    simp only [Option.isSome_none, Bool.false_eq_true, if_false, Option.some.injEq,
      reduceCtorEq, false_iff]
    rintro ⟨⟨c, hcurrent, hlegs⟩, hopen⟩
    rw [heldCandidate_eq_some.mpr ⟨hcurrent, hlegs, hopen⟩] at h
    exact Option.some_ne_none c h

/-- A kept bundle's targets are emitted as they were, under its ID. -/
theorem emitted_kept {b : ContinuityBundle} (hb : b ∈ keptBundles s now prior) (v : Venue) :
    ((emitted (selectTargets s ranking now candidates prior.bundles) b v).map
      fun t => (t.targetId, t.terms)).Perm
      ((b.legs.filter (·.venue = v)).map fun l => (l.targetId, l.terms)) := by
  have hreaches := protectedAllocation_reaches s now prior (ranked ranking candidates)
  have hids : ((keptBundles s now prior).map (·.bundleId)).Nodup :=
    (survivors_ids s now prior).sublist (hreaches.sub.map _)
  have htargets := ((hreaches.targets v).filter (·.1 = b.bundleId)).map fun t => (t.2.1, t.2.2)
  rw [owned_of_mem v hids hb, List.filter_map, List.map_map] at htargets
  have hemitted := (emitted_perm ranking candidates hhold (hreaches.sub.subset hb) v).map
    fun t => (t.targetId, t.terms)
  refine hemitted.trans ?_
  simpa [owned, Function.comp_def] using htargets

/-- A bundle under whose ID nothing is emitted has run out, or did not fit. -/
theorem absent_cases {b : ContinuityBundle} (hb : b ∈ prior.bundles)
    (hnone : ∀ v, emitted (selectTargets s ranking now candidates prior.bundles) b v = []) :
    clampElapsed s now b = true ∨ b.allTerminal = true ∨
      b ∈ survivors s now prior ∧ b ∉ keptBundles s now prior := by
  rw [← or_assoc, or_iff_not_imp_left, not_or, Bool.not_eq_true, Bool.not_eq_true]
  intro ⟨hclamp, hopen⟩
  have hretained : retirement s now b = .retained := by simp [retirement, hclamp, hopen]
  refine ⟨(mem_survivors s now prior).mpr ⟨hb, hretained⟩, fun hkept => ?_⟩
  obtain ⟨t, ht⟩ := List.exists_mem_of_ne_nil _ b.complete.2.2
  have hperm := emitted_kept ranking candidates hhold hkept t.venue
  rw [hnone, List.map_nil] at hperm
  have hlegs := List.map_eq_nil_iff.mp hperm.nil_eq.symm
  have hmem : t.leg ∈ b.legs.filter (·.venue = t.venue) := by
    simpa [ContinuityBundle.legs] using ⟨⟨t, ht, rfl⟩, rfl⟩
  rw [hlegs] at hmem
  exact List.not_mem_nil hmem

/-- The hold keeps its promise exactly when no order gets in the way: of every kept bundle that has
    a current candidate with its targets, the candidate found lists their subscriptions in the
    bundle's order. -/
theorem hold_iff : Promise s ranking now candidates prior ↔
    ∀ b ∈ keptBundles s now prior, b.anyTerminal = false → HasCurrent candidates b →
      ∃ c, currentOf (ranked ranking candidates) b.bundleId = some c ∧
        ∀ l, l ∈ c.legs ↔ l ∈ b.legs := by
  constructor
  · intro h b hb hopen hcurrent
    have hheld := (h.held b hb).mpr ⟨hcurrent, hopen⟩
    exact ((held_iff ranking candidates hhold hb).mp hheld).1
  · intro h
    exact {
      absent := fun b hb => absent_cases ranking candidates hhold hb
      exact := fun b hb => emitted_kept ranking candidates hhold hb
      held := fun b hb => by
        rw [held_iff ranking candidates hhold hb]
        constructor
        · intro ⟨⟨c, hc, hlegs⟩, hopen⟩
          exact ⟨hasCurrent_of_currentOf ranking candidates hc hlegs, hopen⟩
        · intro ⟨hcurrent, hopen⟩
          exact ⟨h b hb hopen hcurrent, hopen⟩
      trimmed := fun b hb => trimmed_iff ranking candidates hhold hb
      independent := fun others b hb => by
        rw [trimmed_iff ranking candidates hhold hb, trimmed_iff ranking others hhold hb] }

end Run

/-! ## One market -/

/-- A strategy with room for one bundle. -/
def oneBundle : Strategy := ⟨true, 28800, fun _ => 2, 1, none⟩

/-- A Polymarket market that lists its two outcomes in some order. -/
def oneMarket (first second : String) (h : first ≠ second) : Candidate where
  bundleId := "bundle"
  activationAt := 0
  captureStartAt := 0
  score := 1
  eligible := true
  eligibleMarkets := [⟨.polymarket, "1", "soccer.moneyline_3way", [first, second], "catalog",
    by simp, by simpa using h⟩]
  distinct := by simp

/-- The generation that has it, its subscriptions sorted. -/
def onePrior : ContinuityBundle where
  baseRunId := "run"
  bundleId := "bundle"
  activationAt := 0
  score := 1
  targets := [{
    venue := .polymarket
    venueMarketId := "1"
    canonicalClass := "soccer.moneyline_3way"
    subscriptionIds := ["1", "2"]
    activationAt := 0
    captureStartAt := 0
    sourceRef := "catalog"
    complete := by decide
    unique := by decide }]
  complete := by decide
  distinct := by simp
  agreed := by simp

def oneGeneration : ContinuitySet := ⟨[onePrior], by simp, by simp [onePrior, ContinuityBundle.legs]⟩

theorem kept_oneGeneration : keptBundles oneBundle 0 oneGeneration = [onePrior] := by
  decide

/-- In the sorted order the hold keeps its promise. -/
theorem hold_sorted : Promise oneBundle (fun _ _ => True) 0 [oneMarket "1" "2" (by decide)]
    oneGeneration := by
  refine (hold_iff (fun _ _ => True) [oneMarket "1" "2" (by decide)] rfl).mpr fun b hb _ _ => ?_
  rw [kept_oneGeneration, List.mem_singleton] at hb
  subst hb
  exact ⟨oneMarket "1" "2" (by decide), rfl, fun _ => Iff.rfl⟩

/-- In the other order the unchanged market is not reported as held. -/
theorem hold_unsorted : ¬ Promise oneBundle (fun _ _ => True) 0
    [oneMarket "2" "1" (by decide)] oneGeneration := by
  intro h
  have hkept : onePrior ∈ keptBundles oneBundle 0 oneGeneration := by simp [kept_oneGeneration]
  have hsame : SameLegs (oneMarket "2" "1" (by decide)).legs onePrior.legs := by
    simp [SameLegs, Candidate.legs, ContinuityBundle.legs, oneMarket, onePrior,
      ContinuityTarget.leg, Terms.Same, or_comm, Leg.targetId]
  have hheld := (h.held onePrior hkept).mpr ⟨⟨_, List.mem_singleton_self _, rfl, rfl, hsame⟩, rfl⟩
  revert hheld
  decide

end PredictionIndexer.Targeter
