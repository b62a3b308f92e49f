import PredictionIndexer.ForStd.ExactCover
import PredictionIndexer.ForStd.Result
import PredictionIndexer.Replay.Outcomes

/-!
# Complete sets

The search of the source is the search for exact covers, with its results sorted and counted as they
are found. Every leg has an outcome, so every partition is found, and once.
-/

namespace PredictionIndexer.Replay

open Fallible ExactCover

/-- What has been found, within the limit. -/
def bounded {α : Type} (limit : Int) (result : List α) : Except Raised (List α) :=
  if limit < result.length then .error (.valueError "complete-set limit exceeded") else .ok result

section Bounded

variable {α ι : Type} {limit : Int} {result : List α}

/-- A loop whose rounds append and count appends and counts. -/
theorem foldlM_bounded {f : List α → ι → Except Raised (List α)} {g : ι → List α} {items : List ι}
    (hf : ∀ i ∈ items, ∀ result, result.length ≤ limit → f result i = bounded limit (result ++ g i))
    (h : result.length ≤ limit) :
    items.foldlM f result = bounded limit (result ++ items.flatMap g) := by
  induction items generalizing result with
  | nil => simp [bounded, h]
  | cons i items ih =>
    rw [List.foldlM_cons, hf i List.mem_cons_self result h, List.flatMap_cons, ← List.append_assoc]
    by_cases hlength : limit < (result ++ g i).length
    · have hmore : limit < (result ++ g i ++ items.flatMap g).length := by
        rw [List.length_append]
        omega
      rw [bounded, if_pos hlength, bounded, if_pos hmore]
      rfl
    · rw [bounded, if_neg hlength, Except.ok_bind]
      exact ih (fun j hj => hf j (List.mem_cons_of_mem i hj)) (by omega)

end Bounded

namespace OutcomeScope

section Search

variable {legs : List Leg} {remaining : Finset String} {limit : Int} {left : Nat}
  {chosen : List BookKey} {result : List (List BookKey)}

theorem eligible_eq {k : String} :
    OutcomeScope.eligible legs remaining k = ExactCover.eligible legs Leg.keys remaining k := by
  unfold OutcomeScope.eligible ExactCover.eligible
  rw [List.filter_filter]
  apply List.filter_congr
  intro leg _
  rw [Bool.and_comm]

theorem pivot_mem (h : remaining ≠ ∅) : pivot legs remaining ∈ remaining := by
  have hne := Finset.nonempty_iff_ne_empty.mpr h
  unfold pivot
  rw [dif_pos hne]
  obtain ⟨k, hk, heq⟩ := Finset.mem_image.mp (Finset.min'_mem _ (hne.image fun k =>
    (toLex ((OutcomeScope.eligible legs remaining k).length, k) : Nat ×ₗ String)))
  show (ofLex (Finset.min' (α := Nat ×ₗ String) _ _)).2 ∈ remaining
  rw [← heq]
  exact hk

/-- The books of a cover, sorted behind those chosen before. -/
def sortedBooks (chosen : List BookKey) (cover : List Leg) : List BookKey :=
  (chosen ++ cover.map (·.book)).sortByKey id

theorem sortedBooks_cons {leg : Leg} {cover : List Leg} :
    sortedBooks chosen (leg :: cover) = sortedBooks (chosen ++ [leg.book]) cover := by
  simp [sortedBooks]

/-- The search appends the exact covers it finds. -/
theorem search_eq (h : result.length ≤ limit) :
    search legs limit left remaining chosen result =
      bounded limit (result ++
        (ExactCover.search legs Leg.keys (pivot legs) left remaining).map (sortedBooks chosen)) := by
  induction left generalizing remaining chosen result with
  | zero =>
    unfold OutcomeScope.search
    by_cases hempty : remaining = ∅
    · rw [if_pos hempty, hempty, search_empty]
      simp [bounded, sortedBooks]
    · rw [if_neg hempty, search_zero hempty]
      simp [bounded, h]
  | succ left ih =>
    unfold OutcomeScope.search
    by_cases hempty : remaining = ∅
    · rw [if_pos hempty, hempty, search_empty]
      simp [bounded, sortedBooks]
    · rw [if_neg hempty, search_succ hempty, List.map_flatMap, eligible_eq]
      apply foldlM_bounded ?_ h
      intro leg _ result hlength
      rw [ih hlength, List.map_map]
      simp only [Function.comp_def, sortedBooks_cons]

end Search

/-! ## Partitions -/

/-- The books are masked, of one exhaustive space, and split its outcomes. -/
def Splits (scope : OutcomeScope) (books : List BookKey) : Prop :=
  ∃ space legs, scope.space space.shapeId = some space ∧ space.coverage = .exhaustive ∧
    books.mapM scope.leg = some legs ∧ (∀ leg ∈ legs, leg.shapeId = space.shapeId) ∧
    IsCover Leg.keys space.keys.toFinset legs

section Partition

variable {scope : OutcomeScope} {books : List BookKey} {book : BookKey} {leg first : Leg}
  {legs rest : List Leg} {space : Space}

theorem leg_eq_some (h : scope.leg book = some leg) : leg.book = book ∧ leg ∈ scope.legs := by
  refine ⟨by simpa using List.find?_some h, ?_⟩
  simpa using List.mem_of_find?_eq_some h

theorem mem_legs_of_mapM (h : books.mapM scope.leg = some legs) :
    legs.map (·.book) = books ∧ ∀ leg ∈ legs, scope.leg leg.book = some leg := by
  induction books generalizing legs with
  | nil =>
    cases h
    exact ⟨rfl, by simp⟩
  | cons book books ih =>
    rw [List.mapM_cons] at h
    obtain ⟨leg, hleg, h⟩ := Option.bind_eq_some_iff.mp h
    obtain ⟨rest, hrest, h⟩ := Option.bind_eq_some_iff.mp h
    cases h
    obtain ⟨hbooks, hlegs⟩ := ih hrest
    obtain ⟨hbook, -⟩ := leg_eq_some hleg
    refine ⟨by rw [List.map_cons, hbook, hbooks], ?_⟩
    intro other hother
    rcases List.mem_cons.mp hother with rfl | hother
    · rw [hbook]
      exact hleg
    · exact hlegs other hother

theorem mapM_leg (h : ∀ leg ∈ legs, scope.leg leg.book = some leg) :
    (legs.map (·.book)).mapM scope.leg = some legs := by
  induction legs with
  | nil => rfl
  | cons leg legs ih =>
    rw [List.map_cons, List.mapM_cons, h leg List.mem_cons_self,
      ih fun other hother => h other (List.mem_cons_of_mem leg hother)]
    rfl

theorem space_keys_ne (h : scope.space space.shapeId = some space) : space.keys.toFinset ≠ ∅ := by
  have hmem := List.mem_of_find?_eq_some h
  have hne := scope.space_keys space hmem
  simpa using hne

theorem leg_keys (hleg : leg ∈ scope.legs) (h : scope.space leg.shapeId = some space) :
    leg.keys ≠ ∅ ∧ leg.keys ⊆ space.keys.toFinset := by
  obtain ⟨space', hspace', hkeys⟩ := scope.leg_space leg hleg
  have heq : some space' = some space := hspace'.symm.trans h
  cases heq
  exact hkeys

/-- The loop over the legs goes through just if they are disjoint, and leaves their union. -/
theorem foldlM_addDisjoint {union result : Finset String} :
    legs.foldlM addDisjoint union = some result ↔
      (legs.Pairwise (fun a b => Disjoint a.keys b.keys) ∧
        ∀ leg ∈ legs, Disjoint union leg.keys) ∧
      ∀ k, k ∈ result ↔ k ∈ union ∨ ∃ leg ∈ legs, k ∈ leg.keys := by
  induction legs generalizing union with
  | nil =>
    simp only [List.foldlM_nil, List.not_mem_nil]
    rw [show (pure union : Option (Finset String)) = some union from rfl, Option.some.injEq, eq_comm,
      Finset.ext_iff]
    simp
  | cons leg legs ih =>
    rw [List.foldlM_cons, List.pairwise_cons]
    by_cases hdisjoint : Disjoint union leg.keys
    · have hadd : addDisjoint union leg = some (union ∪ leg.keys) := by
        rw [addDisjoint, if_neg (not_not.mpr (Finset.disjoint_iff_inter_eq_empty.mp hdisjoint))]
      rw [hadd]
      show legs.foldlM addDisjoint (union ∪ leg.keys) = some result ↔ _
      rw [ih]
      simp only [Finset.disjoint_union_left, Finset.mem_union, List.mem_cons, forall_eq_or_imp,
        exists_eq_or_imp, forall_and, or_assoc, hdisjoint, true_and]
      tauto
    · have hadd : addDisjoint union leg = none := by
        rw [addDisjoint, if_pos (mt Finset.disjoint_iff_inter_eq_empty.mpr hdisjoint)]
      rw [hadd]
      constructor
      · intro h
        cases h
      · intro h
        exact absurd (h.1.2 leg List.mem_cons_self) hdisjoint

theorem space_shapeId {shape : String} (h : scope.space shape = some space) :
    space.shapeId = shape := by
  simpa using List.find?_some h

theorem isExhaustive_iff {shape : String} : scope.isExhaustive shape = true ↔
    ∃ space, scope.space shape = some space ∧ space.coverage = .exhaustive := by
  unfold isExhaustive
  cases scope.space shape <;> simp

theorem keysOf_eq {shape : String} (h : scope.space shape = some space) :
    scope.keysOf shape = space.keys := by
  rw [keysOf, h]

/-- The loop ends with the outcomes of the space just if the legs split them. -/
theorem isCover_iff_foldlM {keys : Finset String} :
    IsCover Leg.keys keys legs ↔ legs.foldlM addDisjoint ∅ = some keys := by
  rw [foldlM_addDisjoint]
  simp only [Finset.disjoint_empty_left, implies_true, and_true, Finset.notMem_empty, false_or]
  exact ⟨fun h => ⟨h.disjoint, h.union⟩, fun ⟨hdisjoint, hunion⟩ => ⟨hdisjoint, hunion⟩⟩

theorem isPartition_iff : scope.isPartition books = true ↔ Splits scope books := by
  unfold isPartition Splits
  cases hmap : books.mapM scope.leg with
  | none => simp
  | some legs =>
    cases legs with
    | nil =>
      simp only [Bool.false_eq_true, false_iff]
      intro ⟨space, legs, hspace, _, hlegs, _, hcover⟩
      cases hlegs
      exact space_keys_ne hspace (isCover_nil_iff.mp hcover)
    | cons first rest =>
      have hsame : rest.any (·.shapeId ≠ first.shapeId) = false ↔
          ∀ leg ∈ first :: rest, leg.shapeId = first.shapeId := by
        simp
      constructor
      · intro h
        simp only at h
        split at h
        next => cases h
        next hcond =>
          rw [Bool.or_eq_true, not_or, Bool.not_eq_true, hsame, Bool.not_eq_true'] at hcond
          obtain ⟨space, hspace, hcoverage⟩ := isExhaustive_iff.mp (by simpa using hcond.2)
          have hid := space_shapeId hspace
          refine ⟨space, _, by rwa [hid], hcoverage, rfl, by rw [hid]; exact hcond.1, ?_⟩
          split at h
          next => cases h
          next union hunion =>
            rw [isCover_iff_foldlM, hunion, of_decide_eq_true h, keysOf_eq hspace]
      · intro ⟨space, legs, hspace, hcoverage, hlegs, hids, hcover⟩
        cases hlegs
        have hid := hids first List.mem_cons_self
        have hids' : ∀ leg ∈ first :: rest, leg.shapeId = first.shapeId := by
          rw [hid]
          exact hids
        rw [← hid] at hspace
        have hexhaustive := isExhaustive_iff.mpr ⟨space, hspace, hcoverage⟩
        simp only [hsame.mpr hids', hexhaustive, isCover_iff_foldlM.mp hcover, keysOf_eq hspace,
          Bool.not_true, Bool.or_self, Bool.false_eq_true, if_false, decide_true]

/-- The partitions are the books that pay one leg at each outcome of an exhaustive space. -/
theorem isPartition_iff_payoff : scope.isPartition books = true ↔
    ∃ space, scope.space space.shapeId = some space ∧ space.coverage = .exhaustive ∧
      scope.payoff books = .ok [(space.shapeId, space.keys.map fun _ => 1)] := by
  rw [isPartition_iff]
  unfold Splits payoff
  cases hmap : books.mapM scope.leg with
  | none => simp
  | some legs =>
    cases legs with
    | nil =>
      constructor
      · intro ⟨space, legs, hspace, _, hlegs, _, hcover⟩
        cases hlegs
        exact absurd (isCover_nil_iff.mp hcover) (space_keys_ne hspace)
      · intro ⟨space, _, _, hpayoff⟩
        cases hpayoff
    | cons first rest =>
      have hlegs := (mem_legs_of_mapM hmap).2
      -- under one space the counts are those of the cover
      have hcount : ∀ space, scope.space first.shapeId = some space →
          (∀ leg ∈ first :: rest, leg.shapeId = first.shapeId) →
          (IsCover Leg.keys space.keys.toFinset (first :: rest) ↔
            (space.keys.map fun key => (first :: rest).countP (key ∈ ·.keys)) =
              space.keys.map fun _ => 1) := by
        intro space hspace hids
        rw [isCover_iff_countP, List.map_inj_left]
        · simp
        · intro leg hleg
          have hleg' := (leg_eq_some (hlegs leg hleg)).2
          rw [← hids leg hleg] at hspace
          exact (leg_keys hleg' hspace).2
      constructor
      · intro ⟨space, legs, hspace, hcoverage, hsome, hids, hcover⟩
        cases hsome
        have hid := hids first List.mem_cons_self
        rw [← hid] at hids
        rw [← hid] at hspace
        refine ⟨space, by rwa [← hid], hcoverage, ?_⟩
        have hsame : ¬rest.any (·.shapeId ≠ first.shapeId) = true := by
          simpa using fun leg hleg => hids leg (List.mem_cons_of_mem first hleg)
        simp only
        rw [if_neg hsame, keysOf_eq hspace, (hcount space hspace hids).mp hcover, hid]
      · intro ⟨space, hspace, hcoverage, hpayoff⟩
        simp only at hpayoff
        split at hpayoff
        next => cases hpayoff
        next hsame =>
          simp only [Except.ok.injEq, List.cons.injEq, Prod.mk.injEq, and_true] at hpayoff
          obtain ⟨hid, hones⟩ := hpayoff
          have hids : ∀ leg ∈ first :: rest, leg.shapeId = first.shapeId := by
            simpa using hsame
          have hspace' : scope.space first.shapeId = some space := by rwa [hid]
          rw [keysOf_eq hspace'] at hones
          exact ⟨space, _, hspace, hcoverage, rfl, by rwa [← hid],
            (hcount space hspace' hids).mpr hones⟩

end Partition

/-! ## The sets found -/

/-- What the search adds for a shape. -/
def found (scope : OutcomeScope) (bookKeys : List BookKey) (maxLegs : Nat) (shape : String) :
    List (List BookKey) :=
  (ExactCover.search (scope.shapeLegs bookKeys shape) Leg.keys (pivot (scope.shapeLegs bookKeys shape))
    maxLegs (scope.keysOf shape).toFinset).map (sortedBooks [])

section Found

variable {scope : OutcomeScope} {bookKeys books : List BookKey} {shape : String} {leg : Leg}
  {legs cover cover' : List Leg} {space : Space} {maxLegs : Nat} {limit : Int}

theorem mem_shapeLegs : leg ∈ scope.shapeLegs bookKeys shape ↔
    leg.book ∈ bookKeys ∧ scope.leg leg.book = some leg ∧ scope.isExhaustive shape = true ∧
      leg.shapeId = shape := by
  unfold shapeLegs exhaustiveLegs
  rw [List.mem_filter, List.mem_filter, List.mem_filterMap, decide_eq_true_eq]
  constructor
  · intro ⟨⟨⟨book, hbook, hleg⟩, hexhaustive⟩, hshape⟩
    obtain ⟨rfl, -⟩ := leg_eq_some hleg
    exact ⟨List.mem_sortedSet.mp hbook, hleg, hshape ▸ hexhaustive, hshape⟩
  · intro ⟨hbook, hleg, hexhaustive, hshape⟩
    exact ⟨⟨⟨_, List.mem_sortedSet.mpr hbook, hleg⟩, hshape ▸ hexhaustive⟩, hshape⟩

theorem nodup_shapeLegs : (scope.shapeLegs bookKeys shape).Nodup := by
  unfold shapeLegs exhaustiveLegs
  refine ((List.Nodup.filterMap ?_ ?_).filter _).filter _
  · intro book book' leg hleg hleg'
    rw [Option.mem_def] at hleg hleg'
    rw [← (leg_eq_some hleg).1, ← (leg_eq_some hleg').1]
  · exact (List.pairwise_sortedSet bookKeys).imp ne_of_lt

/-- The legs of a list of books are the list's own. -/
theorem perm_of_books (hcover : ∀ leg ∈ cover, scope.leg leg.book = some leg)
    (hcover' : ∀ leg ∈ cover', scope.leg leg.book = some leg)
    (h : (cover.map (·.book)).Perm (cover'.map (·.book))) : cover.Perm cover' := by
  have hlegs : ∀ l : List Leg, (∀ leg ∈ l, scope.leg leg.book = some leg) →
      (l.map (·.book)).filterMap scope.leg = l := by
    intro l hl
    induction l with
    | nil => rfl
    | cons leg l ih =>
      rw [List.map_cons, List.filterMap_cons, hl leg List.mem_cons_self,
        ih fun other hother => hl other (List.mem_cons_of_mem leg hother)]
  rw [← hlegs cover hcover, ← hlegs cover' hcover']
  exact h.filterMap scope.leg

theorem sortedBooks_perm : (sortedBooks [] cover).Perm (cover.map (·.book)) :=
  List.sortByKey_perm id _

/-- The books of disjoint legs are distinct. -/
theorem nodup_books (hlegs : ∀ leg ∈ legs, scope.leg leg.book = some leg)
    (hdisjoint : legs.Pairwise fun a b => Disjoint a.keys b.keys) :
    (legs.map (·.book)).Nodup := by
  have hnodup : legs.Nodup := by
    refine hdisjoint.imp_of_mem ?_
    intro a b ha _ hab heq
    subst heq
    have hmem := (leg_eq_some (hlegs a ha)).2
    obtain ⟨space, hspace, hne, -⟩ := scope.leg_space a hmem
    exact hne (Finset.disjoint_self_iff_empty _ |>.mp hab)
  refine hnodup.map_on ?_
  intro a ha b hb heq
  have hsame : some a = some b := by rw [← hlegs a ha, ← hlegs b hb, heq]
  exact Option.some_injective _ hsame

/-- What is found for a shape are the lists of its books, in order, that split it. -/
theorem mem_found (hspace : scope.space shape = some space) (hcoverage : space.coverage = .exhaustive) :
    books ∈ scope.found bookKeys maxLegs shape ↔
      books.Pairwise (· < ·) ∧ (∀ book ∈ books, book ∈ bookKeys) ∧ books.length ≤ maxLegs ∧
      ∃ legs, books.mapM scope.leg = some legs ∧ (∀ leg ∈ legs, leg.shapeId = shape) ∧
        IsCover Leg.keys space.keys.toFinset legs := by
  have hexhaustive := isExhaustive_iff.mpr ⟨space, hspace, hcoverage⟩
  unfold found
  rw [keysOf_eq hspace, List.mem_map]
  constructor
  · intro ⟨cover, hcover, hbooks⟩
    obtain ⟨hsplit, hlength, hitems⟩ := isCover_of_mem_search hcover
    -- the cover in the order of its books
    have hperm := List.sortByKey_perm Leg.book cover
    have hlegs : ∀ leg ∈ cover.sortByKey Leg.book, leg ∈ scope.shapeLegs bookKeys shape :=
      fun leg hleg => hitems leg (hperm.mem_iff.mp hleg)
    have hmap : (cover.sortByKey Leg.book).map (·.book) = books := by
      rw [← hbooks]
      exact List.map_sortByKey Leg.book cover
    have hown : ∀ leg ∈ cover, scope.leg leg.book = some leg :=
      fun leg hleg => (mem_shapeLegs.mp (hitems leg hleg)).2.1
    refine ⟨?_, ?_, ?_, cover.sortByKey Leg.book, ?_, ?_, hsplit.perm hperm.symm⟩
    · rw [← hmap, List.pairwise_map]
      exact List.pairwise_lt_sortByKey (nodup_books hown hsplit.disjoint)
    · intro book hbook
      rw [← hmap] at hbook
      obtain ⟨leg, hleg, rfl⟩ := List.mem_map.mp hbook
      exact (mem_shapeLegs.mp (hlegs leg hleg)).1
    · rw [← hmap, List.length_map, hperm.length_eq]
      exact hlength
    · rw [← hmap]
      exact mapM_leg fun leg hleg => (mem_shapeLegs.mp (hlegs leg hleg)).2.1
    · intro leg hleg
      exact (mem_shapeLegs.mp (hlegs leg hleg)).2.2.2
  · intro ⟨hsorted, hmem, hlength, legs, hlegs, hshape, hsplit⟩
    obtain ⟨hmap, hown⟩ := mem_legs_of_mapM hlegs
    have hitems : ∀ leg ∈ legs, leg ∈ scope.shapeLegs bookKeys shape := by
      intro leg hleg
      have hbook : leg.book ∈ books := by
        rw [← hmap]
        exact List.mem_map_of_mem hleg
      exact mem_shapeLegs.mpr ⟨hmem _ hbook, hown leg hleg, hexhaustive, hshape leg hleg⟩
    have hmask : ∀ leg ∈ legs, leg.keys ≠ ∅ := by
      intro leg hleg
      obtain ⟨_, _, hne, -⟩ := scope.leg_space leg (leg_eq_some (hown leg hleg)).2
      exact hne
    have hlength' : legs.length ≤ maxLegs := by
      rw [← hmap, List.length_map] at hlength
      exact hlength
    obtain ⟨cover, hcover, hperm⟩ := exists_mem_search (fun _ => pivot_mem) hmask hitems hsplit hlength'
    refine ⟨cover, hcover, ?_⟩
    have hbooks : (cover.map (·.book)).Perm books := by
      rw [← hmap]
      exact hperm.map _
    have hnodup : ((cover.map (·.book)).map id).Nodup := by
      rw [List.map_id]
      exact hbooks.nodup_iff.mpr (hsorted.imp ne_of_lt)
    show (cover.map (·.book)).sortByKey id = books
    rw [List.sortByKey_eq_of_perm hbooks hnodup, List.sortByKey_of_pairwise]
    exact hsorted.imp le_of_lt

/-- `by_shape`, sorted. -/
def shapes (scope : OutcomeScope) (bookKeys : List BookKey) : List String :=
  ((scope.exhaustiveLegs bookKeys).map (·.shapeId)).sortedSet

theorem space_of_mem_shapes (h : shape ∈ scope.shapes bookKeys) :
    ∃ space, scope.space shape = some space ∧ space.coverage = .exhaustive := by
  obtain ⟨leg, hleg, rfl⟩ := List.mem_map.mp (List.mem_sortedSet.mp h)
  exact isExhaustive_iff.mp (List.mem_filter.mp hleg).2

theorem legs_ne_nil (hspace : scope.space shape = some space)
    (hsplit : IsCover Leg.keys space.keys.toFinset legs) : legs ≠ [] := by
  intro hnil
  rw [hnil] at hsplit
  rw [← space_shapeId hspace] at hspace
  exact space_keys_ne hspace (isCover_nil_iff.mp hsplit)

theorem mem_flatMap_found : books ∈ (scope.shapes bookKeys).flatMap (scope.found bookKeys maxLegs) ↔
    books.Pairwise (· < ·) ∧ (∀ book ∈ books, book ∈ bookKeys) ∧ books.length ≤ maxLegs ∧
      scope.isPartition books = true := by
  rw [List.mem_flatMap, isPartition_iff]
  constructor
  · intro ⟨shape, hshape, hbooks⟩
    obtain ⟨space, hspace, hcoverage⟩ := space_of_mem_shapes hshape
    obtain ⟨hsorted, hmem, hlength, legs, hlegs, hids, hsplit⟩ :=
      (mem_found hspace hcoverage).mp hbooks
    have hid := space_shapeId hspace
    exact ⟨hsorted, hmem, hlength, space, legs, by rwa [hid], hcoverage, hlegs, by rwa [hid], hsplit⟩
  · intro ⟨hsorted, hmem, hlength, space, legs, hspace, hcoverage, hlegs, hids, hsplit⟩
    refine ⟨space.shapeId, ?_,
      (mem_found hspace hcoverage).mpr ⟨hsorted, hmem, hlength, legs, hlegs, hids, hsplit⟩⟩
    obtain ⟨leg, hleg⟩ := List.exists_mem_of_ne_nil legs (legs_ne_nil hspace hsplit)
    obtain ⟨hmap, hown⟩ := mem_legs_of_mapM hlegs
    have hbook : leg.book ∈ bookKeys := by
      apply hmem
      rw [← hmap]
      exact List.mem_map_of_mem hleg
    have hexhaustive := isExhaustive_iff.mpr ⟨space, hspace, hcoverage⟩
    have hitem := mem_shapeLegs.mpr ⟨hbook, hown leg hleg, hexhaustive, hids leg hleg⟩
    apply List.mem_sortedSet.mpr
    exact List.mem_map.mpr ⟨leg, (List.mem_filter.mp hitem).1, hids leg hleg⟩

/-- No set is found twice, for one shape or for two. -/
theorem nodup_flatMap_found :
    ((scope.shapes bookKeys).flatMap (scope.found bookKeys maxLegs)).Nodup := by
  rw [List.nodup_flatMap]
  constructor
  · intro shape _
    unfold found
    rw [List.Nodup, List.pairwise_map]
    refine (pairwise_search nodup_shapeLegs).imp_of_mem ?_
    intro cover cover' hcover hcover' hne heq
    have hown : ∀ leg ∈ cover, scope.leg leg.book = some leg := fun leg hleg =>
      (mem_shapeLegs.mp ((isCover_of_mem_search hcover).2.2 leg hleg)).2.1
    have hown' : ∀ leg ∈ cover', scope.leg leg.book = some leg := fun leg hleg =>
      (mem_shapeLegs.mp ((isCover_of_mem_search hcover').2.2 leg hleg)).2.1
    have hbooks : (sortedBooks [] cover).Perm (cover.map (·.book)) := sortedBooks_perm
    rw [heq] at hbooks
    exact hne (perm_of_books hown hown' (hbooks.symm.trans sortedBooks_perm))
  · refine (List.pairwise_sortedSet _).imp_of_mem ?_
    intro shape shape' hshape hshape' hlt books hbooks hbooks'
    obtain ⟨space, hspace, hcoverage⟩ := space_of_mem_shapes hshape
    obtain ⟨space', hspace', hcoverage'⟩ := space_of_mem_shapes hshape'
    obtain ⟨-, -, -, legs, hlegs, hids, hsplit⟩ := (mem_found hspace hcoverage).mp hbooks
    obtain ⟨-, -, -, legs', hlegs', hids', -⟩ := (mem_found hspace' hcoverage').mp hbooks'
    rw [hlegs] at hlegs'
    cases hlegs'
    obtain ⟨leg, hleg⟩ := List.exists_mem_of_ne_nil legs (legs_ne_nil hspace hsplit)
    exact ne_of_lt hlt ((hids leg hleg).symm.trans (hids' leg hleg))

theorem completeSets_eq {maxLegs : Int} (hlegs : ¬maxLegs < 1) (hlimit : ¬limit < 0) :
    scope.completeSets bookKeys maxLegs limit =
      bounded limit ((scope.shapes bookKeys).flatMap (scope.found bookKeys maxLegs.toNat)) >>=
        fun result => .ok (result.sortByKey id) := by
  have hloop : (scope.shapes bookKeys).foldlM (fun result shape =>
      OutcomeScope.search (scope.shapeLegs bookKeys shape) limit maxLegs.toNat
        (scope.keysOf shape).toFinset [] result) [] =
      bounded limit ([] ++ (scope.shapes bookKeys).flatMap (scope.found bookKeys maxLegs.toNat)) :=
    foldlM_bounded (fun shape _ result hresult => search_eq hresult) (by simpa using hlimit)
  rw [completeSets, if_neg (not_or.mpr ⟨hlegs, hlimit⟩)]
  exact congrArg (· >>= fun result => .ok (result.sortByKey id)) hloop

end Found

/-- `complete_sets` answers with exactly the partitions of an exhaustive space by at most `max_legs`
of the books, each as its sorted books, in order and once; it refuses just when they are more than
`limit`. -/
theorem completeSets_eq_partitions (scope : OutcomeScope) (bookKeys : List BookKey)
    (maxLegs limit : Int) : ∃ sets : List (List BookKey), sets.Pairwise (· < ·) ∧
      (∀ books, books ∈ sets ↔ books.Pairwise (· < ·) ∧ (∀ book ∈ books, book ∈ bookKeys) ∧
        books.length ≤ maxLegs ∧ scope.isPartition books = true) ∧
      (∀ books, scope.isPartition books = true ↔ Splits scope books) ∧
      (∀ books, scope.isPartition books = true ↔
        ∃ space, scope.space space.shapeId = some space ∧ space.coverage = .exhaustive ∧
          scope.payoff books = .ok [(space.shapeId, space.keys.map fun _ => 1)]) ∧
      scope.completeSets bookKeys maxLegs limit =
        if maxLegs < 1 ∨ limit < 0 then .error (.valueError "invalid complete-set bounds")
        else if limit < sets.length then .error (.valueError "complete-set limit exceeded")
        else .ok sets := by
  have hperm := List.sortByKey_perm id
    ((scope.shapes bookKeys).flatMap (scope.found bookKeys maxLegs.toNat))
  refine ⟨((scope.shapes bookKeys).flatMap (scope.found bookKeys maxLegs.toNat)).sortByKey id,
    ?_, ?_, fun books => isPartition_iff, fun books => isPartition_iff_payoff, ?_⟩
  · exact List.pairwise_lt_sortByKey_id nodup_flatMap_found
  · intro books
    rw [hperm.mem_iff, mem_flatMap_found]
    have hlength : books ≠ [] → (books.length ≤ maxLegs.toNat ↔ (books.length : Int) ≤ maxLegs) := by
      intro hne
      have hpos := List.length_pos_iff.mpr hne
      omega
    -- the empty list of books is no partition
    by_cases hnil : books = []
    · subst hnil
      simp [isPartition]
    · rw [hlength hnil]
  · by_cases hbad : maxLegs < 1 ∨ limit < 0
    · rw [completeSets, if_pos hbad, if_pos hbad]
    · obtain ⟨hlegs, hlimit⟩ := not_or.mp hbad
      rw [completeSets_eq hlegs hlimit, if_neg hbad, hperm.length_eq, bounded]
      by_cases hmany : limit < ((scope.shapes bookKeys).flatMap
          (scope.found bookKeys maxLegs.toNat)).length
      · rw [if_pos hmany, if_pos hmany]
        rfl
      · rw [if_neg hmany, if_neg hmany]
        rfl

end OutcomeScope

end PredictionIndexer.Replay
