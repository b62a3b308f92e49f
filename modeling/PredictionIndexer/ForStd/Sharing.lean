import Mathlib

/-!
# Shared references

Several holders refer to one object, which is charged for once. A dictionary has, for each reference
held, how many hold it and what it is charged with; it has no other entries.
-/

namespace Sharing

open Function

variable {ρ : Type} [DecidableEq ρ] {share : ρ → Nat} {held held' : List ρ}
  {counts : ρ → Option (Nat × Nat)} {r : ρ}

/-- The dictionary counts what is held. -/
def IsCount (share : ρ → Nat) (held : List ρ) (counts : ρ → Option (Nat × Nat)) : Prop :=
  ∀ r, counts r = if held.count r = 0 then none else some (held.count r, share r)

/-- What is held, each reference once. -/
def total (share : ρ → Nat) (held : List ρ) : Nat := ∑ r ∈ held.toFinset, share r

theorem isCount_nil (share : ρ → Nat) : IsCount share [] fun _ => none := fun r => by simp

@[simp] theorem total_nil (share : ρ → Nat) : total share [] = 0 := rfl

theorem IsCount.perm (h : IsCount share held counts) (hperm : held.Perm held') :
    IsCount share held' counts := fun r => by
  rw [← hperm.count_eq]
  exact h r

theorem total_perm (hperm : held.Perm held') : total share held = total share held' := by
  rw [total, total, List.toFinset_eq_of_perm _ _ hperm]

theorem total_cons_of_mem (hr : r ∈ held) : total share (r :: held) = total share held := by
  rw [total, total, List.toFinset_cons, Finset.insert_eq_self.mpr (List.mem_toFinset.mpr hr)]

theorem total_cons_of_notMem (hr : r ∉ held) :
    total share (r :: held) = total share held + share r := by
  rw [total, total, List.toFinset_cons, Finset.sum_insert (mt List.mem_toFinset.mp hr), add_comm]

theorem IsCount.eq_none_iff (h : IsCount share held counts) : counts r = none ↔ r ∉ held := by
  rw [h r, ← List.count_eq_zero]
  split <;> simp [*]

/-- A reference that none holds yet. -/
theorem IsCount.first (h : IsCount share held counts) (hr : counts r = none) :
    IsCount share (r :: held) (update counts r (some (1, share r))) := by
  intro q
  have hcount : held.count r = 0 := List.count_eq_zero.mpr (h.eq_none_iff.mp hr)
  by_cases hq : q = r
  · subst hq
    rw [update_self, List.count_cons_self, hcount]
    rfl
  · rw [update_of_ne hq, List.count_cons_of_ne (Ne.symm hq)]
    exact h q

/-- A reference that is held already. -/
theorem IsCount.again (h : IsCount share held counts) {n s : Nat} (hr : counts r = some (n, s)) :
    IsCount share (r :: held) (update counts r (some (n + 1, s))) := by
  intro q
  have hheld := h r
  rw [hr] at hheld
  by_cases hq : q = r
  · subst hq
    rw [update_self, List.count_cons_self, if_neg (Nat.succ_ne_zero _)]
    split at hheld
    next => cases hheld
    next =>
      cases hheld
      rfl
  · rw [update_of_ne hq, List.count_cons_of_ne (Ne.symm hq)]
    exact h q

/-- What the dictionary has of a reference that is held. -/
theorem IsCount.get (h : IsCount share (r :: held) counts) :
    counts r = some (held.count r + 1, share r) := by
  rw [h r, List.count_cons_self, if_neg (Nat.succ_ne_zero _)]

/-- A reference is held once less. -/
theorem IsCount.less (h : IsCount share (r :: held) counts) (hr : r ∈ held) :
    IsCount share held (update counts r (some (held.count r, share r))) := by
  intro q
  by_cases hq : q = r
  · subst hq
    rw [update_self, if_neg (Nat.ne_of_gt (List.count_pos_iff.mpr hr))]
  · rw [update_of_ne hq]
    have hheld := h q
    rwa [List.count_cons_of_ne (Ne.symm hq)] at hheld

/-- A reference is held no more. -/
theorem IsCount.last (h : IsCount share (r :: held) counts) (hr : r ∉ held) :
    IsCount share held (update counts r none) := by
  intro q
  by_cases hq : q = r
  · subst hq
    rw [update_self, if_pos (List.count_eq_zero.mpr hr)]
  · rw [update_of_ne hq]
    have hheld := h q
    rwa [List.count_cons_of_ne (Ne.symm hq)] at hheld

end Sharing
