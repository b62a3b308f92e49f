import Mathlib

/-!
# Sorting by a key

A stable sort by a key, as the standard libraries have it. When no key occurs twice the order of
the result is strict, so it does not depend on the order the entries came in, and a list that is
in order already stays as it is.
-/

namespace List

variable {α κ : Type}

/-- The neighbours of a list, in order. -/
def neighbours (l : List α) : List (α × α) := l.zip l.tail

/-- A property of all neighbours is that of a chain. -/
theorem forall_neighbours_iff {R : α → α → Prop} {l : List α} :
    (∀ p ∈ l.neighbours, R p.1 p.2) ↔ l.IsChain R := by
  induction l with
  | nil => simp [neighbours]
  | cons a l ih =>
    cases l with
    | nil => simp [neighbours]
    | cons b l =>
      rw [isChain_cons_cons, ← ih]
      simp [neighbours]

/-- `combinations(l, 2)`. -/
def pairs : List α → List (α × α)
  | [] => []
  | a :: l => l.map (a, ·) ++ pairs l

theorem mem_pairs_of_pairwise {R : α → α → Prop} {l : List α} (h : l.Pairwise R) {p : α × α}
    (hp : p ∈ l.pairs) : p.1 ∈ l ∧ p.2 ∈ l ∧ R p.1 p.2 := by
  induction l with
  | nil => exact absurd hp not_mem_nil
  | cons a l ih =>
    obtain ⟨hhead, htail⟩ := pairwise_cons.mp h
    rcases mem_append.mp hp with hp | hp
    · obtain ⟨b, hb, rfl⟩ := mem_map.mp hp
      exact ⟨mem_cons_self, mem_cons_of_mem a hb, hhead b hb⟩
    · obtain ⟨hfirst, hsecond, hR⟩ := ih htail hp
      exact ⟨mem_cons_of_mem a hfirst, mem_cons_of_mem a hsecond, hR⟩

/-- Two entries make a pair, in one order or the other. -/
theorem pair_mem_pairs {l : List α} {a b : α} (ha : a ∈ l) (hb : b ∈ l) (hne : a ≠ b) :
    (a, b) ∈ l.pairs ∨ (b, a) ∈ l.pairs := by
  induction l with
  | nil => exact absurd ha not_mem_nil
  | cons c l ih =>
    simp only [pairs, mem_append, mem_map, Prod.mk.injEq]
    rcases mem_cons.mp ha with rfl | ha'
    · rcases mem_cons.mp hb with rfl | hb'
      · exact absurd rfl hne
      · exact .inl (.inl ⟨b, hb', rfl, rfl⟩)
    · rcases mem_cons.mp hb with rfl | hb'
      · exact .inr (.inl ⟨a, ha', rfl, rfl⟩)
      · rcases ih ha' hb' with h | h
        · exact .inl (.inr h)
        · exact .inr (.inr h)

theorem pairs_map {β : Type} (f : α → β) (l : List α) :
    (l.map f).pairs = l.pairs.map (Prod.map f f) := by
  induction l with
  | nil => rfl
  | cons a l ih => simp [pairs, ih, Function.comp_def]

/-- The pairs of some entries are the pairs that have both. -/
theorem pairs_filter (p : α → Bool) (l : List α) :
    (l.filter p).pairs = l.pairs.filter fun pair => p pair.1 && p pair.2 := by
  induction l with
  | nil => rfl
  | cons a l ih =>
    rw [pairs, filter_append, filter_map]
    by_cases h : p a = true
    · rw [filter_cons_of_pos h, pairs, ih]
      simp [Function.comp_def, h]
    · rw [filter_cons_of_neg h, ih]
      simp [Function.comp_def, h]

/-- `sort_by_key`. -/
def sortByKey [LE κ] [DecidableLE κ] (key : α → κ) (l : List α) : List α :=
  l.mergeSort fun a b => decide (key a ≤ key b)

/-- `sorted(set(l))`. -/
def sortedSet [DecidableEq α] [LE α] [DecidableLE α] (l : List α) : List α := l.dedup.sortByKey id

section SortByKey

variable [LinearOrder κ] {key : α → κ} {l l' : List α}

theorem sortByKey_perm (key : α → κ) (l : List α) : (sortByKey key l).Perm l := mergeSort_perm l _

theorem pairwise_sortByKey (key : α → κ) (l : List α) :
    (sortByKey key l).Pairwise fun a b => key a ≤ key b := by
  have hsorted := @pairwise_mergeSort _ (fun a b => decide (key a ≤ key b))
    (fun a b c hab hbc => by
      simp only [decide_eq_true_eq] at *
      exact hab.trans hbc)
    (fun a b => by
      simp only [Bool.or_eq_true, decide_eq_true_eq]
      exact le_total _ _) l
  exact hsorted.imp fun h => of_decide_eq_true h

/-- In an ordered list the keys are distinct just if no two neighbours share one. -/
theorem nodup_iff_neighbours (h : l.Pairwise fun a b => key a ≤ key b) :
    (l.map key).Nodup ↔ ∀ p ∈ l.neighbours, key p.1 ≠ key p.2 := by
  have hstrict : (l.map key).Nodup ↔ l.Pairwise fun a b => key a < key b := by
    rw [Nodup, pairwise_map]
    constructor
    · intro hne
      exact h.imp₂ (fun a b hab hne => lt_of_le_of_ne hab hne) hne
    · intro hlt
      exact hlt.imp ne_of_lt
  have htrans : Trans (fun a b : α => key a < key b) (fun a b => key a < key b)
      (fun a b => key a < key b) := ⟨fun hab hbc => lt_trans hab hbc⟩
  rw [hstrict, ← isChain_iff_pairwise, ← forall_neighbours_iff]
  have hle : ∀ p ∈ l.neighbours, key p.1 ≤ key p.2 := forall_neighbours_iff.mpr h.isChain
  constructor
  · intro hlt p hp
    exact ne_of_lt (hlt p hp)
  · intro hne p hp
    exact lt_of_le_of_ne (hle p hp) (hne p hp)

/-- Distinct keys in order are in strict order. -/
theorem pairwise_lt_sortByKey (h : (l.map key).Nodup) :
    (sortByKey key l).Pairwise fun a b => key a < key b := by
  have hnodup : ((sortByKey key l).map key).Nodup :=
    ((sortByKey_perm key l).map key).nodup_iff.mpr h
  rw [Nodup, pairwise_map] at hnodup
  exact (pairwise_sortByKey key l).imp₂ (fun a b => lt_of_le_of_ne) hnodup

/-- Sorting by a key sorts the keys. -/
theorem map_sortByKey (key : α → κ) (l : List α) :
    (sortByKey key l).map key = sortByKey id (l.map key) := by
  have hperm : ((sortByKey key l).map key).Perm (sortByKey id (l.map key)) :=
    ((sortByKey_perm key l).map key).trans (sortByKey_perm id _).symm
  have hanti : ∀ a b : κ, a ∈ (sortByKey key l).map key → b ∈ sortByKey id (l.map key) →
      a ≤ b → b ≤ a → a = b := fun _ _ _ _ => le_antisymm
  refine Perm.eq_of_pairwise hanti ?_ (pairwise_sortByKey id _) hperm
  · rw [pairwise_map]
    exact pairwise_sortByKey key l

theorem sortByKey_of_pairwise (h : l.Pairwise fun a b => key a ≤ key b) : sortByKey key l = l :=
  mergeSort_of_pairwise (h.imp fun hab => decide_eq_true hab)

/-- With distinct keys any order of the entries sorts to one list. -/
theorem sortByKey_eq_of_perm (hperm : l.Perm l') (hnodup : (l.map key).Nodup) :
    sortByKey key l = sortByKey key l' := by
  have hsame : (sortByKey key l).Perm (sortByKey key l') :=
    ((sortByKey_perm key l).trans hperm).trans (sortByKey_perm key l').symm
  refine Perm.eq_of_pairwise ?_ (pairwise_sortByKey key l) (pairwise_sortByKey key l') hsame
  intro a b ha hb hab hba
  have ha' : a ∈ l := (sortByKey_perm key l).mem_iff.mp ha
  have hb' : b ∈ l := hperm.mem_iff.mpr ((sortByKey_perm key l').mem_iff.mp hb)
  exact inj_on_of_nodup_map hnodup ha' hb' (le_antisymm hab hba)

end SortByKey

section SortedSet

variable [LinearOrder α] {l : List α} {a : α}

@[simp] theorem mem_sortedSet : a ∈ sortedSet l ↔ a ∈ l :=
  (sortByKey_perm id l.dedup).mem_iff.trans mem_dedup

theorem pairwise_lt_sortByKey_id (h : l.Nodup) : (sortByKey id l).Pairwise (· < ·) := by
  have hnodup : (l.map id).Nodup := by
    rw [map_id]
    exact h
  exact pairwise_lt_sortByKey hnodup

theorem pairwise_sortedSet (l : List α) : (sortedSet l).Pairwise (· < ·) :=
  pairwise_lt_sortByKey_id l.nodup_dedup

/-- Just the strictly ascending lists are the sorted sets of themselves. -/
theorem eq_sortedSet_iff : l = sortedSet l ↔ l.Pairwise (· < ·) := by
  constructor
  · intro h
    rw [h]
    exact pairwise_sortedSet l
  · intro h
    have hnodup : l.Nodup := h.imp ne_of_lt
    rw [sortedSet, hnodup.dedup]
    exact (sortByKey_of_pairwise (h.imp le_of_lt)).symm

end SortedSet

end List
