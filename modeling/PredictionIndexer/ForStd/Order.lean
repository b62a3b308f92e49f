import Mathlib

/-!
# Ordered maps and comparison functions through a key

Ordered maps (`Std.ExtTreeMap`) ask their key type for a transitive comparison whose
`.eq` is equality. These lemmas give both for a type that is compared through an injective
key, and for lexicographic pairs of keys. The last section reads a map that was filled from a
list.
-/

namespace Std

/-- Comparing through an injective key is lawful when comparing keys is. -/
theorem lawfulEqCmp_compareOn {α β : Type} [Ord β] [LawfulEqOrd β] (f : α → β)
    (hf : Function.Injective f) : LawfulEqCmp (compareOn f) where
  compare_self := by
    intro a
    exact ReflOrd.compare_self
  eq_of_compare := by
    intro a b h
    exact hf (LawfulEqOrd.eq_of_compare h)

/-- Comparing lexicographically through two keys is lawful when the pair of keys
    determines the value. -/
theorem lawfulEqCmp_compareLex_compareOn {α β γ : Type} [Ord β] [LawfulEqOrd β] [Ord γ]
    [LawfulEqOrd γ] (f : α → β) (g : α → γ) (hfg : ∀ a b, f a = f b → g a = g b → a = b) :
    LawfulEqCmp (compareLex (compareOn f) (compareOn g)) where
  compare_self := by
    intro a
    simp [compareLex, compareOn]
  eq_of_compare := by
    intro a b h
    rw [compareLex_eq_eq] at h
    exact hfg a b (LawfulEqOrd.eq_of_compare h.1) (LawfulEqOrd.eq_of_compare h.2)

namespace ExtTreeMap

variable {α β γ : Type} {cmp : α → α → Ordering} [TransCmp cmp] [LawfulEqCmp cmp]

/-- Inserting a list of entries leaves the other keys alone. -/
theorem getElem?_foldl_insert_of_notMem {key : γ → α} {val : γ → β} {l : List γ}
    {m : ExtTreeMap α β cmp} {k : α} (h : ∀ c ∈ l, key c ≠ k) :
    (l.foldl (fun m c => m.insert (key c) (val c)) m)[k]? = m[k]? := by
  induction l generalizing m with
  | nil => rfl
  | cons c l ih =>
    rw [List.foldl_cons, ih fun d hd => h d (by simp [hd]), getElem?_insert]
    simp [h c (by simp)]

/-- Inserting a list of entries with distinct keys stores each of them. -/
theorem getElem?_foldl_insert_of_mem {key : γ → α} {val : γ → β} {l : List γ}
    {m : ExtTreeMap α β cmp} {c : γ} (hl : l.Pairwise fun a b => key a ≠ key b) (hc : c ∈ l) :
    (l.foldl (fun m c => m.insert (key c) (val c)) m)[key c]? = some (val c) := by
  induction l generalizing m with
  | nil => exact nomatch hc
  | cons d l ih =>
    obtain ⟨hd, hl⟩ := List.pairwise_cons.mp hl
    rw [List.foldl_cons]
    rcases List.mem_cons.mp hc with rfl | hc
    · rw [getElem?_foldl_insert_of_notMem fun b hb => (hd b hb).symm]
      simp
    · exact ih hl hc

/-- Inserting a list of entries that agree on a key stores what they say. -/
theorem getElem?_foldl_insert_of_forall {key : γ → α} {val : γ → β} {l : List γ}
    {m : ExtTreeMap α β cmp} {k : α} {v : β} (h : ∀ c ∈ l, key c = k → val c = v)
    (hm : (∃ c ∈ l, key c = k) ∨ m[k]? = some v) :
    (l.foldl (fun m c => m.insert (key c) (val c)) m)[k]? = some v := by
  induction l generalizing m with
  | nil => simpa using hm
  | cons d l ih =>
    rw [List.foldl_cons]
    refine ih (fun c hc => h c (by simp [hc])) ?_
    by_cases hd : key d = k
    · right
      simp [hd, h d (by simp) hd]
    · rw [getElem?_insert]
      simpa [hd] using hm

/-- A map filled from entries that determine their value by their key holds those entries. -/
theorem getElem?_foldl_insert_eq_some {l : List (α × γ)} {f : γ → β}
    (hl : ∀ a ∈ l, ∀ b ∈ l, a.1 = b.1 → a.2 = b.2) {k : α} {v : β} :
    (l.foldl (fun m e => m.insert e.1 (f e.2)) (∅ : ExtTreeMap α β cmp))[k]? = some v ↔
      ∃ c, (k, c) ∈ l ∧ f c = v := by
  by_cases h : ∃ c, (k, c) ∈ l
  · obtain ⟨c, hc⟩ := h
    have hv : ∀ e ∈ l, e.1 = k → f e.2 = f c := by
      intro e he hek
      rw [hl e he (k, c) hc hek]
    rw [getElem?_foldl_insert_of_forall hv (.inl ⟨_, hc, rfl⟩), Option.some.injEq]
    constructor
    · intro hcv
      exact ⟨c, hc, hcv⟩
    · rintro ⟨d, hd, rfl⟩
      exact (hv _ hd rfl).symm
  · have hk : ∀ e ∈ l, e.1 ≠ k := by
      rintro ⟨k', c⟩ he rfl
      exact h ⟨c, he⟩
    rw [getElem?_foldl_insert_of_notMem hk]
    constructor
    · intro hv
      simp at hv
    · rintro ⟨c, hc, -⟩
      exact absurd ⟨c, hc⟩ h

/-- The keys of a map that holds exactly the `n` numbers from `first` on, in order. -/
theorem keys_eq_range' {m : ExtTreeMap Nat β} {first n : Nat}
    (h : ∀ k, k ∈ m ↔ first ≤ k ∧ k < first + n) : m.keys = List.range' first n := by
  have hkeys : m.keys.Pairwise (· < ·) :=
    m.ordered_keys.imp fun hab => Nat.compare_eq_lt.mp hab
  apply List.Pairwise.eq_of_mem_iff hkeys List.pairwise_lt_range'
  intro k
  rw [mem_keys, h, List.mem_range'_1]

/-- What a partial function finds in a map, in the order of the keys. -/
theorem filterMap_toList_eq {m : ExtTreeMap α β cmp} {f : β → Option γ} {l : List (α × γ)}
    (hl : l.Pairwise fun a b => cmp a.1 b.1 = .lt)
    (h : ∀ k v, (k, v) ∈ l ↔ m[k]?.bind f = some v) :
    (m.toList.filterMap fun (k, b) => (f b).map (k, ·)) = l := by
  have hirrefl : Irrefl fun a b : α × γ => cmp a.1 b.1 = .lt :=
    ⟨fun a ha => by simp [ReflCmp.compare_self] at ha⟩
  have hasymm : Antisymm fun a b : α × γ => cmp a.1 b.1 = .lt :=
    ⟨fun a b hab hba => by simp [OrientedCmp.gt_of_lt hab] at hba⟩
  apply List.Pairwise.eq_of_mem_iff _ hl
  · rintro ⟨k, v⟩
    rw [h, List.mem_filterMap]
    constructor
    · rintro ⟨⟨k', b⟩, hb, hv⟩
      obtain ⟨v', hf, hkv⟩ := Option.map_eq_some_iff.mp hv
      cases hkv
      rw [mem_toList_iff_getElem?_eq_some.mp hb, Option.bind_some, hf]
    · intro hv
      obtain ⟨b, hb, hf⟩ := Option.bind_eq_some_iff.mp hv
      exact ⟨(k, b), mem_toList_iff_getElem?_eq_some.mpr hb, by simp [hf]⟩
  · rw [List.pairwise_filterMap]
    refine m.ordered_keys_toList.imp ?_
    intro a b hab x hx y hy
    obtain ⟨v, -, rfl⟩ := Option.map_eq_some_iff.mp hx
    obtain ⟨w, -, rfl⟩ := Option.map_eq_some_iff.mp hy
    exact hab

/-- A key past every other is appended. -/
theorem toList_insert_of_lt {m : ExtTreeMap Nat β} {k : Nat} {v : β} (h : ∀ k' ∈ m, k' < k) :
    (m.insert k v).toList = m.toList ++ [(k, v)] := by
  have hsorted : ∀ m : ExtTreeMap Nat β, m.toList.Pairwise (InvImage (· < ·) Prod.fst) :=
    fun m => m.ordered_keys_toList.imp fun hab => Nat.compare_eq_lt.mp hab
  have hmem : ∀ k', m[k']?.isSome → k' ∈ m := fun k' => mem_iff_isSome_getElem?.mpr
  have hasymm : Antisymm (InvImage (· < ·) (Prod.fst : Nat × β → Nat)) :=
    ⟨fun a b hab hba => absurd hab (Nat.lt_asymm hba)⟩
  apply List.Pairwise.eq_of_mem_iff (hsorted _)
  · rw [List.pairwise_append]
    refine ⟨hsorted m, by simp, ?_⟩
    intro a ha b hb
    rw [List.mem_singleton] at hb
    subst hb
    exact h a.1 (hmem a.1 (by rw [mem_toList_iff_getElem?_eq_some.mp ha, Option.isSome_some]))
  · rintro ⟨k', v'⟩
    rw [mem_toList_iff_getElem?_eq_some, List.mem_append, mem_toList_iff_getElem?_eq_some,
      getElem?_insert]
    by_cases hk : k = k'
    · subst hk
      have hnone : m[k]? = none := by
        by_contra hne
        exact Nat.lt_irrefl k (h k (hmem k (Option.isSome_iff_ne_none.mpr hne)))
      simp [hnone, eq_comm]
    · simp [hk, Ne.symm hk]

/-- A map that keeps every entry of another and adds only later keys begins with its entries. -/
theorem toList_prefix_toList {m m' : ExtTreeMap α β cmp}
    (hkept : ∀ (k : α) (v : β), m[k]? = some v → m'[k]? = some v)
    (hlater : ∀ k ∈ m', k ∉ m → ∀ j ∈ m, cmp j k = .lt) : m.toList <+: m'.toList := by
  have hmem : ∀ (m : ExtTreeMap α β cmp) e, e ∈ m.toList → e.1 ∈ m := by
    intro m e he
    exact mem_iff_isSome_getElem?.mpr (by
      rw [mem_toList_iff_getElem?_eq_some.mp he, Option.isSome_some])
  have hasymm : Antisymm fun a b : α × β => cmp a.1 b.1 = .lt :=
    ⟨fun a b hab hba => by simp [OrientedCmp.gt_of_lt hab] at hba⟩
  have hirrefl : Irrefl fun a b : α × β => cmp a.1 b.1 = .lt :=
    ⟨fun a ha => by simp [ReflCmp.compare_self] at ha⟩
  refine ⟨m'.toList.filter fun e => e.1 ∉ m, ?_⟩
  apply List.Pairwise.eq_of_mem_iff _ m'.ordered_keys_toList
  · rintro ⟨k, v⟩
    simp only [List.mem_append, List.mem_filter, decide_eq_true_eq,
      mem_toList_iff_getElem?_eq_some]
    constructor
    · rintro (hv | ⟨hv, -⟩)
      · exact hkept k v hv
      · exact hv
    · intro hv
      by_cases hk : k ∈ m
      · obtain ⟨w, hw⟩ := Option.isSome_iff_exists.mp (mem_iff_isSome_getElem?.mp hk)
        rw [hkept k w hw] at hv
        exact .inl (hv ▸ hw)
      · exact .inr ⟨hv, hk⟩
  · rw [List.pairwise_append]
    refine ⟨m.ordered_keys_toList, m'.ordered_keys_toList.filter _, ?_⟩
    intro a ha b hb
    obtain ⟨hb, hnew⟩ := List.mem_filter.mp hb
    exact hlater b.1 (hmem m' b hb) (by simpa using hnew) a.1 (hmem m a ha)

end ExtTreeMap

end Std
