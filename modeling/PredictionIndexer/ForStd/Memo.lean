import Mathlib

/-!
# Memos

A bounded memo of a function keeps the results it was last asked for, the oldest first. Whatever it
holds was a result of the function, so an answer from it is the function's.
-/

namespace Memo

variable {κ β : Type} [DecidableEq κ]

/-- The answer to a key, and the memo behind it: a hit moves to the end, a miss is computed and
appended, and the oldest entry goes when there are more than `bound`. -/
def answer (f : κ → β) (bound : Nat) (k : κ) (memo : List (κ × β)) : β × List (κ × β) :=
  match memo.find? (·.1 = k) with
  | some hit => (hit.2, memo.filter (·.1 ≠ k) ++ [hit])
  | none =>
    let memo := memo ++ [(k, f k)]
    (f k, if bound < memo.length then memo.tail else memo)

/-- Every entry is a result of the function. -/
def Valid (f : κ → β) (memo : List (κ × β)) : Prop := ∀ entry ∈ memo, entry.2 = f entry.1

section Answer

variable {f : κ → β} {bound : Nat} {k : κ} {memo : List (κ × β)}

omit [DecidableEq κ] in
theorem valid_nil : Valid f [] := by simp [Valid]

theorem answer_fst (h : Valid f memo) : (answer f bound k memo).1 = f k := by
  unfold answer
  split
  next hit hfind =>
    have hkey : hit.1 = k := by simpa using List.find?_some hfind
    rw [h hit (List.mem_of_find?_eq_some hfind), hkey]
  next => rfl

theorem valid_answer (h : Valid f memo) : Valid f (answer f bound k memo).2 := by
  unfold answer
  split
  next hit hfind =>
    intro entry hentry
    rcases List.mem_append.mp hentry with hentry | hentry
    · exact h entry (List.mem_filter.mp hentry).1
    · rw [List.mem_singleton.mp hentry]
      exact h hit (List.mem_of_find?_eq_some hfind)
  next =>
    have hall : Valid f (memo ++ [(k, f k)]) := by
      intro entry hentry
      rcases List.mem_append.mp hentry with hentry | hentry
      · exact h entry hentry
      · rw [List.mem_singleton.mp hentry]
    intro entry hentry
    simp only at hentry
    split at hentry
    · exact hall entry (List.mem_of_mem_tail hentry)
    · exact hall entry hentry

end Answer

end Memo
