import Mathlib

/-!
# Greedy runs

A run over a list that takes each element or leaves it, given what is taken so far. What it has taken
up to a point does not change behind it, so the choice at a point can be read off the result.
-/

namespace Greedy

/-- Each round appends its element or does nothing. -/
def Takes {α : Type} (f : List α → α → List α) : Prop :=
  ∀ taken x, f taken x = taken ++ [x] ∨ f taken x = taken

variable {α : Type} {f : List α → α → List α} (h : Takes f)
include h

/-- Later rounds append elements of theirs, in order. -/
theorem Takes.append (xs taken : List α) :
    ∃ more, more.Sublist xs ∧ xs.foldl f taken = taken ++ more := by
  induction xs generalizing taken with
  | nil => exact ⟨[], List.Sublist.refl _, (List.append_nil _).symm⟩
  | cons x xs ih =>
    rw [List.foldl_cons]
    rcases h taken x with heq | heq
    · obtain ⟨more, hsub, hrest⟩ := ih (taken ++ [x])
      exact ⟨x :: more, hsub.cons_cons x, by rw [heq, hrest, List.append_assoc]; rfl⟩
    · obtain ⟨more, hsub, hrest⟩ := ih taken
      exact ⟨more, hsub.cons x, by rw [heq, hrest]⟩

section Keyed

variable {κ : Type} {key : α → κ} {pre post : List α} {x : α}
  (hkeys : ((pre ++ x :: post).map key).Nodup)
include hkeys

/-- An element is taken exactly when its round takes it. -/
theorem Takes.mem_iff :
    x ∈ (pre ++ x :: post).foldl f [] ↔ f (pre.foldl f []) x = pre.foldl f [] ++ [x] := by
  obtain ⟨before, hbefore, heq⟩ := h.append pre []
  obtain ⟨more, hmore, hrest⟩ := h.append post (f before x)
  rw [List.nil_append] at heq
  rw [List.map_append, List.map_cons, List.nodup_append, List.nodup_cons] at hkeys
  obtain ⟨-, ⟨hpost, -⟩, hpre⟩ := hkeys
  have hx : x ∉ before := fun hmem =>
    hpre _ (List.mem_map_of_mem (hbefore.subset hmem)) _ List.mem_cons_self rfl
  have hmore : x ∉ more := fun hmem => hpost (List.mem_map_of_mem (hmore.subset hmem))
  rw [List.foldl_append, List.foldl_cons, heq, hrest]
  rcases h before x with htake | hleave
  · simp [htake]
  · simp [hleave, hx, hmore]

/-- Of what is taken, the elements in front of a point are those of the run up to it. -/
theorem Takes.front [DecidableEq κ] {earlier : List κ}
    (hearlier : ∀ y ∈ pre ++ x :: post, key y ∈ earlier ↔ y ∈ pre) :
    ((pre ++ x :: post).foldl f []).filter (fun y => key y ∈ earlier) = pre.foldl f [] := by
  obtain ⟨before, hbefore, heq⟩ := h.append pre []
  obtain ⟨more, hmore, hrest⟩ := h.append (x :: post) before
  rw [List.nil_append] at heq
  rw [List.foldl_append, heq, hrest, List.filter_append]
  rw [List.map_append, List.nodup_append] at hkeys
  have hkeep : before.filter (fun y => key y ∈ earlier) = before := by
    refine List.filter_eq_self.mpr fun y hy => decide_eq_true ?_
    have hmem := hbefore.subset hy
    exact (hearlier y (List.mem_append_left _ hmem)).mpr hmem
  have hdrop : more.filter (fun y => key y ∈ earlier) = [] := by
    refine List.filter_eq_nil_iff.mpr fun y hy hin => ?_
    have hmem := hmore.subset hy
    have hpre := (hearlier y (List.mem_append_right _ hmem)).mp (of_decide_eq_true hin)
    exact hkeys.2.2 _ (List.mem_map_of_mem hpre) _ (List.mem_map_of_mem hmem) rfl
  rw [hkeep, hdrop, List.append_nil]

end Keyed

end Greedy
