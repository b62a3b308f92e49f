import Mathlib

/-!
# Exact covers

Items carry masks, finite sets of keys. The search picks a key that is still uncovered and tries each
item that covers it and nothing covered before. Every exact cover has one item at the picked key, so
it is found, and found once, whichever key is picked.
-/

namespace ExactCover

variable {ι κ : Type} [DecidableEq κ]

/-- The masks of `chosen` are disjoint and make up `keys`. -/
structure IsCover (mask : ι → Finset κ) (keys : Finset κ) (chosen : List ι) : Prop where
  disjoint : chosen.Pairwise fun i j => Disjoint (mask i) (mask j)
  union : ∀ k, k ∈ keys ↔ ∃ i ∈ chosen, k ∈ mask i

/-- The items that cover a key and no key outside `remaining`. -/
def eligible (items : List ι) (mask : ι → Finset κ) (remaining : Finset κ) (k : κ) : List ι :=
  items.filter fun i => k ∈ mask i && mask i ⊆ remaining

/-- All covers of at most `left` items, the item at the picked key first. -/
def search (items : List ι) (mask : ι → Finset κ) (pivot : Finset κ → κ) :
    Nat → Finset κ → List (List ι)
  | left, remaining =>
    if remaining = ∅ then [[]]
    else match left with
      | 0 => []
      | left + 1 => (eligible items mask remaining (pivot remaining)).flatMap fun i =>
        (search items mask pivot left (remaining \ mask i)).map (i :: ·)

section Search

variable {items chosen chosen' : List ι} {mask : ι → Finset κ} {pivot : Finset κ → κ} {left : Nat}
  {remaining : Finset κ} {i j : ι} {k : κ}

@[simp] theorem mem_eligible :
    i ∈ eligible items mask remaining k ↔ i ∈ items ∧ k ∈ mask i ∧ mask i ⊆ remaining := by
  simp [eligible]

theorem search_empty : search items mask pivot left ∅ = [[]] := by
  unfold search
  rw [if_pos rfl]

theorem search_zero (h : remaining ≠ ∅) : search items mask pivot 0 remaining = [] := by
  unfold search
  rw [if_neg h]

theorem search_succ (h : remaining ≠ ∅) :
    search items mask pivot (left + 1) remaining =
      (eligible items mask remaining (pivot remaining)).flatMap fun i =>
        (search items mask pivot left (remaining \ mask i)).map (i :: ·) := by
  rw [search, if_neg h]

theorem mem_search_succ (h : remaining ≠ ∅) :
    chosen ∈ search items mask pivot (left + 1) remaining ↔
      ∃ i rest, chosen = i :: rest ∧ i ∈ eligible items mask remaining (pivot remaining) ∧
        rest ∈ search items mask pivot left (remaining \ mask i) := by
  rw [search_succ h, List.mem_flatMap]
  constructor
  · intro ⟨i, hi, hmem⟩
    obtain ⟨rest, hrest, rfl⟩ := List.mem_map.mp hmem
    exact ⟨i, rest, rfl, hi, hrest⟩
  · intro ⟨i, rest, hchosen, hi, hrest⟩
    exact ⟨i, hi, List.mem_map.mpr ⟨rest, hrest, hchosen.symm⟩⟩

omit [DecidableEq κ] in
theorem isCover_nil_iff : IsCover mask remaining [] ↔ remaining = ∅ := by
  constructor
  · intro h
    rw [Finset.eq_empty_iff_forall_notMem]
    intro k hk
    obtain ⟨i, hi, -⟩ := (h.union k).mp hk
    exact absurd hi List.not_mem_nil
  · intro h
    subst h
    exact ⟨List.Pairwise.nil, by simp⟩

/-- An item first: the rest covers what it leaves. -/
theorem isCover_cons_iff : IsCover mask remaining (i :: chosen) ↔
    mask i ⊆ remaining ∧ IsCover mask (remaining \ mask i) chosen := by
  constructor
  · intro h
    obtain ⟨hdisjoint, hrest⟩ := List.pairwise_cons.mp h.disjoint
    refine ⟨fun k hk => (h.union k).mpr ⟨i, List.mem_cons_self, hk⟩, hrest, fun k => ?_⟩
    rw [Finset.mem_sdiff, h.union]
    constructor
    · intro ⟨⟨j, hj, hk⟩, hnot⟩
      rcases List.mem_cons.mp hj with rfl | hj
      · exact absurd hk hnot
      · exact ⟨j, hj, hk⟩
    · intro ⟨j, hj, hk⟩
      exact ⟨⟨j, List.mem_cons_of_mem i hj, hk⟩,
        fun hki => Finset.disjoint_left.mp (hdisjoint j hj) hki hk⟩
  · intro ⟨hsub, h⟩
    refine ⟨List.pairwise_cons.mpr ⟨fun j hj => ?_, h.disjoint⟩, fun k => ?_⟩
    · rw [Finset.disjoint_left]
      intro k hki hkj
      exact (Finset.mem_sdiff.mp ((h.union k).mpr ⟨j, hj, hkj⟩)).2 hki
    · constructor
      · intro hk
        by_cases hki : k ∈ mask i
        · exact ⟨i, List.mem_cons_self, hki⟩
        · obtain ⟨j, hj, hkj⟩ := (h.union k).mp (Finset.mem_sdiff.mpr ⟨hk, hki⟩)
          exact ⟨j, List.mem_cons_of_mem i hj, hkj⟩
      · intro ⟨j, hj, hkj⟩
        rcases List.mem_cons.mp hj with rfl | hj
        · exact hsub hkj
        · exact (Finset.mem_sdiff.mp ((h.union k).mpr ⟨j, hj, hkj⟩)).1

omit [DecidableEq κ] in
theorem IsCover.perm (h : IsCover mask remaining chosen) (hperm : chosen.Perm chosen') :
    IsCover mask remaining chosen' where
  disjoint := (hperm.pairwise_iff fun hij => hij.symm).mp h.disjoint
  union := by
    intro k
    simp only [h.union, hperm.mem_iff]

/-- What is found is a cover. -/
theorem isCover_of_mem_search (h : chosen ∈ search items mask pivot left remaining) :
    IsCover mask remaining chosen ∧ chosen.length ≤ left ∧ ∀ i ∈ chosen, i ∈ items := by
  induction left generalizing remaining chosen with
  | zero =>
    by_cases hempty : remaining = ∅
    · rw [hempty, search_empty, List.mem_singleton] at h
      subst h
      exact ⟨isCover_nil_iff.mpr hempty, le_rfl, by simp⟩
    · rw [search_zero hempty] at h
      exact absurd h List.not_mem_nil
  | succ left ih =>
    by_cases hempty : remaining = ∅
    · rw [hempty, search_empty, List.mem_singleton] at h
      subst h
      exact ⟨isCover_nil_iff.mpr hempty, Nat.zero_le _, by simp⟩
    · obtain ⟨i, rest, rfl, hi, hrest⟩ := (mem_search_succ hempty).mp h
      obtain ⟨hitem, -, hsub⟩ := mem_eligible.mp hi
      obtain ⟨hcover, hlength, hitems⟩ := ih hrest
      refine ⟨isCover_cons_iff.mpr ⟨hsub, hcover⟩, Nat.succ_le_succ hlength, ?_⟩
      intro j hj
      rcases List.mem_cons.mp hj with rfl | hj
      · exact hitem
      · exact hitems j hj

/-- Every cover is found, its items in some order. -/
theorem exists_mem_search (hpivot : ∀ keys : Finset κ, keys ≠ ∅ → pivot keys ∈ keys)
    (hmask : ∀ i ∈ chosen, mask i ≠ ∅) (hitems : ∀ i ∈ chosen, i ∈ items)
    (h : IsCover mask remaining chosen) (hlength : chosen.length ≤ left) :
    ∃ found ∈ search items mask pivot left remaining, found.Perm chosen := by
  induction left generalizing remaining chosen with
  | zero =>
    obtain rfl := List.eq_nil_of_length_eq_zero (Nat.le_zero.mp hlength)
    rw [isCover_nil_iff.mp h, search_empty]
    exact ⟨[], by simp, List.Perm.refl _⟩
  | succ left ih =>
    by_cases hempty : remaining = ∅
    · subst hempty
      -- nothing to cover, and no item has an empty mask
      obtain rfl : chosen = [] := by
        cases chosen with
        | nil => rfl
        | cons i rest =>
          have hsub := (isCover_cons_iff.mp h).1
          exact absurd (Finset.subset_empty.mp hsub) (hmask i List.mem_cons_self)
      rw [search_empty]
      exact ⟨[], by simp, List.Perm.refl _⟩
    · -- one item covers the picked key
      obtain ⟨i, hi, hk⟩ := (h.union _).mp (hpivot remaining hempty)
      obtain ⟨pre, post, rfl⟩ := List.append_of_mem hi
      have hperm : (pre ++ i :: post).Perm (i :: (pre ++ post)) := List.perm_middle
      obtain ⟨hsub, hrest⟩ := isCover_cons_iff.mp (h.perm hperm)
      have hmem : ∀ j, j ∈ pre ++ post → j ∈ pre ++ i :: post := by
        intro j hj
        exact hperm.mem_iff.mpr (List.mem_cons_of_mem i hj)
      have hlength' := hperm.length_eq
      rw [List.length_cons] at hlength'
      obtain ⟨found, hfound, hsame⟩ := ih (fun j hj => hmask j (hmem j hj))
        (fun j hj => hitems j (hmem j hj)) hrest (by omega)
      refine ⟨i :: found, (mem_search_succ hempty).mpr ⟨i, found, rfl, ?_, hfound⟩,
        (hsame.cons i).trans hperm.symm⟩
      exact mem_eligible.mpr ⟨hitems i hi, hk, hsub⟩

omit [DecidableEq κ] in
/-- In a cover the item at a key is the only one there. -/
theorem IsCover.eq_of_mem (h : IsCover mask remaining chosen) (hi : i ∈ chosen) (hj : j ∈ chosen)
    (hki : k ∈ mask i) (hkj : k ∈ mask j) : i = j := by
  by_contra hne
  have hsymm : Std.Symm fun i j : ι => Disjoint (mask i) (mask j) := ⟨fun _ _ hij => hij.symm⟩
  have hdisjoint := h.disjoint.forall hi hj hne
  exact Finset.disjoint_left.mp hdisjoint hki hkj

/-- No cover is found twice, in whatever order of its items. -/
theorem pairwise_search (hnodup : items.Nodup) :
    (search items mask pivot left remaining).Pairwise fun found found' => ¬found.Perm found' := by
  induction left generalizing remaining with
  | zero =>
    by_cases hempty : remaining = ∅
    · rw [hempty, search_empty]
      exact List.pairwise_singleton _ _
    · rw [search_zero hempty]
      exact List.Pairwise.nil
  | succ left ih =>
    by_cases hempty : remaining = ∅
    · rw [hempty, search_empty]
      exact List.pairwise_singleton _ _
    · rw [search_succ hempty, List.pairwise_flatMap]
      constructor
      · intro i hi
        rw [List.pairwise_map]
        exact ih.imp fun hne hperm => hne ((List.perm_cons i).mp hperm)
      · refine (hnodup.filter _).imp_of_mem ?_
        intro i j hi hj hne found hfound found' hfound' hperm
        have hcover : found ∈ search items mask pivot (left + 1) remaining := by
          rw [search_succ hempty, List.mem_flatMap]
          exact ⟨i, hi, hfound⟩
        obtain ⟨rest, -, rfl⟩ := List.mem_map.mp hfound
        obtain ⟨rest', -, rfl⟩ := List.mem_map.mp hfound'
        -- both items cover the picked key of one cover
        have hi' := (mem_eligible.mp hi).2.1
        have hj' := (mem_eligible.mp hj).2.1
        exact hne ((isCover_of_mem_search hcover).1.eq_of_mem List.mem_cons_self
          (hperm.mem_iff.mpr List.mem_cons_self) hi' hj')

omit [DecidableEq κ] in
/-- A predicate holds of one item of a list. -/
theorem countP_eq_one_iff {p : ι → Bool} {l : List ι} : l.countP p = 1 ↔
    (∃ i ∈ l, p i = true) ∧ l.Pairwise fun i j => ¬(p i = true ∧ p j = true) := by
  induction l with
  | nil => simp
  | cons i l ih =>
    rw [List.countP_cons, List.pairwise_cons]
    by_cases hi : p i = true
    · rw [if_pos hi]
      constructor
      · intro hcount
        have hnone : ∀ j ∈ l, ¬p j = true := List.countP_eq_zero.mp (by omega)
        refine ⟨⟨i, List.mem_cons_self, hi⟩, fun j hj hij => hnone j hj hij.2, ?_⟩
        refine List.pairwise_iff_getElem.mpr fun a b ha _ _ hab => ?_
        exact hnone _ (List.getElem_mem ha) hab.1
      · intro ⟨_, hnone, _⟩
        have hzero : l.countP p = 0 := List.countP_eq_zero.mpr fun j hj hpj => hnone j hj ⟨hi, hpj⟩
        omega
    · rw [if_neg hi, Nat.add_zero, ih]
      simp [hi]

/-- Masks within the keys cover them exactly just if each key is in one mask. -/
theorem isCover_iff_countP (hsub : ∀ i ∈ chosen, mask i ⊆ remaining) :
    IsCover mask remaining chosen ↔ ∀ k ∈ remaining, chosen.countP (k ∈ mask ·) = 1 := by
  constructor
  · intro h k hk
    rw [countP_eq_one_iff]
    simp only [decide_eq_true_eq]
    refine ⟨(h.union k).mp hk, h.disjoint.imp ?_⟩
    intro i j hij hboth
    exact Finset.disjoint_left.mp hij hboth.1 hboth.2
  · intro hcount
    simp only [countP_eq_one_iff, decide_eq_true_eq] at hcount
    constructor
    · rw [List.pairwise_iff_getElem]
      intro i j hi hj hij
      rw [Finset.disjoint_left]
      intro k hki hkj
      have hk := hsub _ (List.getElem_mem hi) hki
      exact List.pairwise_iff_getElem.mp (hcount k hk).2 i j hi hj hij ⟨hki, hkj⟩
    · intro k
      exact ⟨fun hk => (hcount k hk).1, fun ⟨i, hi, hk⟩ => hsub i hi hk⟩

end Search

end ExactCover
