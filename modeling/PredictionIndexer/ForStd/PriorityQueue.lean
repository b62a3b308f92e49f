import Mathlib

/-!
# Taking the least element out of a bag

`popMin` is the `pop` of a binary heap used as a min-queue, on a list that stands for the heap's
contents: it returns an element with a least key and the rest. What order the heap keeps its
elements in is not observable. The second half says that a list is determined by its contents
once it is strictly sorted.
-/

namespace PriorityQueue

variable {α κ : Type} [Ord κ]

/-- Removes an element with a least key. -/
def popMin (key : α → κ) : List α → Option (α × List α)
  | [] => none
  | a :: l =>
    match popMin key l with
    | none => some (a, l)
    | some (b, rest) =>
      if (compare (key a) (key b)).isLE then some (a, b :: rest) else some (b, a :: rest)

theorem popMin_eq_none {key : α → κ} {l : List α} : popMin key l = none ↔ l = [] := by
  cases l with
  | nil => simp [popMin]
  | cons a l =>
    simp only [popMin, reduceCtorEq, iff_false]
    split
    · simp
    · split <;> simp

/-- Nothing is lost or added. -/
theorem popMin_perm {key : α → κ} {l : List α} {a : α} {rest : List α}
    (h : popMin key l = some (a, rest)) : l.Perm (a :: rest) := by
  induction l generalizing a rest with
  | nil => exact nomatch h
  | cons b l ih =>
    simp only [popMin] at h
    split at h
    · obtain ⟨rfl, rfl⟩ := Prod.mk.inj (Option.some.inj h)
      exact List.Perm.refl _
    · rename_i c rest' hpop
      have hperm := ih hpop
      split at h
      · obtain ⟨rfl, rfl⟩ := Prod.mk.inj (Option.some.inj h)
        exact hperm.cons b
      · obtain ⟨rfl, rfl⟩ := Prod.mk.inj (Option.some.inj h)
        exact (hperm.cons b).trans (List.Perm.swap c b rest')

/-- The element taken out is a least one. -/
theorem popMin_le [Std.TransOrd κ] {key : α → κ} {l : List α} {a : α} {rest : List α}
    (h : popMin key l = some (a, rest)) : ∀ b ∈ rest, (compare (key a) (key b)).isLE = true := by
  induction l generalizing a rest with
  | nil => exact nomatch h
  | cons b l ih =>
    simp only [popMin] at h
    split at h
    · rename_i hpop
      obtain ⟨rfl, rfl⟩ := Prod.mk.inj (Option.some.inj h)
      rw [popMin_eq_none.mp hpop]
      simp
    · rename_i c rest' hpop
      have hle := ih hpop
      split at h
      · rename_i hbc
        obtain ⟨rfl, rfl⟩ := Prod.mk.inj (Option.some.inj h)
        intro d hd
        rcases List.mem_cons.mp hd with rfl | hd
        · exact hbc
        · exact Std.TransCmp.isLE_trans hbc (hle d hd)
      · rename_i hbc
        obtain ⟨rfl, rfl⟩ := Prod.mk.inj (Option.some.inj h)
        intro d hd
        rcases List.mem_cons.mp hd with rfl | hd
        · have hswap : compare (key d) (key c) = (compare (key c) (key d)).swap :=
            Std.OrientedCmp.eq_swap
          cases hc : compare (key c) (key d) <;> simp_all
        · exact hle d hd

end PriorityQueue

namespace List

variable {α κ : Type} [Ord κ] [Std.TransOrd κ]

/-- A list that is strictly sorted by a key is determined by its elements. -/
theorem Perm.eq_of_sorted_key {key : α → κ} {l₁ l₂ : List α} (h : l₁.Perm l₂)
    (h₁ : l₁.Pairwise fun a b => compare (key a) (key b) = .lt)
    (h₂ : l₂.Pairwise fun a b => compare (key a) (key b) = .lt) : l₁ = l₂ := by
  refine Perm.eq_of_pairwise ?_ h₁ h₂ h
  intro a b _ _ hab hba
  rw [show compare (key b) (key a) = (compare (key a) (key b)).swap from
    Std.OrientedCmp.eq_swap, hab] at hba
  exact nomatch hba

end List
