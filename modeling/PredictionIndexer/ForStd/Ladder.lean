import Mathlib

/-!
# Ladders

A ladder is a list of levels, each a price and the quantity offered at it. An order of some size
walks it from the front: it takes every level whole until the last one it touches, of which it takes
the rest of its size. What it takes of a level depends on the depth before that level alone.
-/

abbrev PriceLadder := List (Int × Int)

namespace PriceLadder

/-- The quantity on offer. -/
def depth (l : PriceLadder) : Int := (l.map Prod.snd).sum

/-- The sum of price times quantity. -/
def cost (l : PriceLadder) : Int := (l.map fun level => level.1 * level.2).sum

/-- Every level offers something. -/
def Positive (l : PriceLadder) : Prop := ∀ level ∈ l, 0 < level.2

/-- The levels an order touches, each with the amount it takes of it. -/
def walked : PriceLadder → Int → List ((Int × Int) × Int)
  | [], _ => []
  | level :: rest, size =>
    if 0 < size then (level, min level.2 size) :: walked rest (size - level.2) else []

/-- What an order takes, at the price it takes it at. -/
def taken (l : PriceLadder) (size : Int) : PriceLadder := (walked l size).map fun w => (w.1.1, w.2)

/-- The levels an order touches, as they are displayed. -/
def touched (l : PriceLadder) (size : Int) : PriceLadder := (walked l size).map Prod.fst

@[simp] theorem depth_nil : depth [] = 0 := rfl

@[simp] theorem depth_cons (level : Int × Int) (l : PriceLadder) :
    depth (level :: l) = level.2 + depth l := by
  simp [depth]

@[simp] theorem depth_append (l l' : PriceLadder) : depth (l ++ l') = depth l + depth l' := by
  simp [depth]

@[simp] theorem cost_nil : cost [] = 0 := rfl

@[simp] theorem cost_cons (level : Int × Int) (l : PriceLadder) :
    cost (level :: l) = level.1 * level.2 + cost l := by
  simp [cost]

@[simp] theorem cost_append (l l' : PriceLadder) : cost (l ++ l') = cost l + cost l' := by
  simp [cost]

section Walk

variable {l done rest : PriceLadder} {level : Int × Int} {size x : Int}

theorem Positive.of_cons (h : Positive (level :: l)) : Positive l :=
  fun level hmem => h level (List.mem_cons_of_mem _ hmem)

theorem Positive.depth_nonneg (h : Positive l) : 0 ≤ depth l := by
  induction l with
  | nil => simp
  | cons level l ih =>
    have hlevel := h level List.mem_cons_self
    have hl := ih h.of_cons
    rw [depth_cons]
    omega

theorem Positive.of_append_left (h : Positive (done ++ rest)) : Positive done :=
  fun level hmem => h level (List.mem_append_left rest hmem)

theorem Positive.of_append_right (h : Positive (done ++ rest)) : Positive rest :=
  fun level hmem => h level (List.mem_append_right done hmem)

theorem Positive.take (h : Positive l) (k : Nat) : Positive (l.take k) :=
  fun level hmem => h level (List.mem_of_mem_take hmem)

theorem walked_of_nonpos (h : size ≤ 0) : walked l size = [] := by
  cases l with
  | nil => rfl
  | cons level l => rw [walked, if_neg (by omega)]

/-- Levels an order goes past are taken whole. -/
theorem walked_append (h : Positive done) (hx : 0 ≤ x) :
    walked (done ++ rest) (depth done + x) =
      done.map (fun level => (level, level.2)) ++ walked rest x := by
  induction done with
  | nil => simp
  | cons level done ih =>
    have hdone := h.of_cons
    have hlevel := h level List.mem_cons_self
    have hdepth := hdone.depth_nonneg
    rw [List.cons_append, depth_cons, walked, if_pos (by omega), min_eq_left (by omega),
      show level.2 + depth done + x - level.2 = depth done + x by omega, ih hdone]
    rfl

/-- A level an order stops at. -/
theorem walked_cons_of_le (hx : 0 < x) (h : x ≤ level.2) :
    walked (level :: rest) x = [(level, x)] := by
  rw [walked, if_pos hx, min_eq_right h, walked_of_nonpos (by omega)]

/-- An order stops inside a level: the levels before it are whole, none behind it is touched. -/
theorem walked_within (h : Positive done) (hx : 0 < x) (hle : x ≤ level.2) :
    walked (done ++ level :: rest) (depth done + x) =
      done.map (fun level => (level, level.2)) ++ [(level, x)] := by
  rw [walked_append h hx.le, walked_cons_of_le hx hle]

/-- An order that ends with a level. -/
theorem walked_depth (h : Positive done) :
    walked (done ++ rest) (depth done) = done.map fun level => (level, level.2) := by
  have hwalked : walked (done ++ rest) (depth done + 0) = _ := walked_append h le_rfl
  rwa [add_zero, walked_of_nonpos le_rfl, List.append_nil] at hwalked

/-- What is asked for beyond the depth changes nothing. -/
theorem walked_min (h : Positive l) : walked l (min size (depth l)) = walked l size := by
  induction l generalizing size with
  | nil => rfl
  | cons level l ih =>
    have hl := h.of_cons
    have hlevel := h level List.mem_cons_self
    have hdepth := hl.depth_nonneg
    rw [depth_cons, walked, walked]
    by_cases hsize : 0 < size
    · have hrest : min size (level.2 + depth l) - level.2 = min (size - level.2) (depth l) := by omega
      rw [if_pos (by omega), if_pos hsize, hrest, ih hl,
        show min level.2 (min size (level.2 + depth l)) = min level.2 size by omega]
    · rw [if_neg (by omega), if_neg hsize]

/-- The touched levels are those behind too little depth. -/
theorem lt_length_walked (h : Positive l) {k : Nat} :
    k < (walked l size).length ↔ k < l.length ∧ depth (l.take k) < size := by
  induction l generalizing size k with
  | nil => simp [walked]
  | cons level l ih =>
    have hl := h.of_cons
    have hlevel := h level List.mem_cons_self
    rw [walked]
    cases k with
    | zero => by_cases hsize : 0 < size <;> simp [hsize]
    | succ k =>
      have hdepth := (hl.take k).depth_nonneg
      rw [List.take_succ_cons, depth_cons, List.length_cons]
      by_cases hsize : 0 < size
      · have hrest : k < (walked l (size - level.2)).length ↔
            k < l.length ∧ depth (l.take k) < size - level.2 := ih hl
        rw [if_pos hsize, List.length_cons]
        omega
      · rw [if_neg hsize, List.length_nil]
        omega

/-- What an order takes of a level: all of it, or what its size has left at that depth. -/
theorem walked_getElem {k : Nat} (hk : k < (walked l size).length) (hk' : k < l.length) :
    (walked l size)[k] = (l[k], min l[k].2 (size - depth (l.take k))) := by
  induction l generalizing size k with
  | nil => exact absurd hk' (Nat.not_lt_zero k)
  | cons level l ih =>
    by_cases hsize : 0 < size
    · have hwalked : walked (level :: l) size =
          (level, min level.2 size) :: walked l (size - level.2) := by
        rw [walked, if_pos hsize]
      simp only [hwalked] at hk ⊢
      cases k with
      | zero => simp
      | succ k =>
        have hlevel := ih (Nat.lt_of_succ_lt_succ hk) (Nat.lt_of_succ_lt_succ hk')
        simp only [List.getElem_cons_succ, hlevel, List.take_succ_cons, depth_cons]
        rw [show size - level.2 - depth (l.take k) = size - (level.2 + depth (l.take k)) by omega]
    · rw [walked_of_nonpos (by omega)] at hk
      exact absurd hk (Nat.not_lt_zero k)

theorem taken_depth (h : Positive done) : taken (done ++ rest) (depth done) = done := by
  simp [taken, walked_depth h, Function.comp_def]

theorem touched_depth (h : Positive done) : touched (done ++ rest) (depth done) = done := by
  simp [touched, walked_depth h, Function.comp_def]

theorem taken_within (h : Positive done) (hx : 0 < x) (hle : x ≤ level.2) :
    taken (done ++ level :: rest) (depth done + x) = done ++ [(level.1, x)] := by
  simp [taken, walked_within h hx hle, Function.comp_def]

theorem touched_within (h : Positive done) (hx : 0 < x) (hle : x ≤ level.2) :
    touched (done ++ level :: rest) (depth done + x) = done ++ [level] := by
  simp [touched, walked_within h hx hle, Function.comp_def]

theorem touched_isPrefix : touched l size <+: l := by
  induction l generalizing size with
  | nil => exact List.prefix_refl []
  | cons level l ih =>
    rw [touched, walked]
    by_cases hsize : 0 < size
    · rw [if_pos hsize, List.map_cons]
      exact List.prefix_cons_inj level |>.mpr ih
    · rw [if_neg hsize]
      exact List.nil_prefix

@[simp] theorem length_taken : (taken l size).length = (touched l size).length := by
  simp [taken, touched]

/-- An order takes its size, or all there is. -/
theorem depth_taken (h : Positive l) (hsize : 0 ≤ size) :
    depth (taken l size) = min size (depth l) := by
  induction l generalizing size with
  | nil => simp [taken, walked, hsize]
  | cons level l ih =>
    have hl := h.of_cons
    have hlevel := h level List.mem_cons_self
    have hdepth := hl.depth_nonneg
    rw [taken, walked]
    by_cases hpos : 0 < size
    · rw [if_pos hpos, List.map_cons, depth_cons, depth_cons]
      by_cases hle : level.2 ≤ size
      · have hrest := @ih (size - level.2) hl (by omega)
        rw [taken] at hrest
        rw [hrest]
        show min level.2 size + _ = _
        omega
      · rw [walked_of_nonpos (by omega)]
        show min level.2 size + 0 = _
        omega
    · rw [if_neg hpos, depth_cons]
      show 0 = min size _
      omega

/-- The amounts do not depend on the prices. -/
theorem walked_map (l : PriceLadder) (size : Int) (f : Int → Int) :
    walked (l.map fun level => (f level.1, level.2)) size =
      (walked l size).map fun w => ((f w.1.1, w.1.2), w.2) := by
  induction l generalizing size with
  | nil => rfl
  | cons level l ih =>
    rw [List.map_cons, walked, walked]
    by_cases hsize : 0 < size
    · rw [if_pos hsize, if_pos hsize, List.map_cons, ih]
    · rw [if_neg hsize, if_neg hsize]
      rfl

end Walk

end PriceLadder
