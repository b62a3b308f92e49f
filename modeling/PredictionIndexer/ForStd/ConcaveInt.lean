import Mathlib

/-!
# Concave functions of the integers

A function whose steps up do not grow, and one whose steps up are all the same. Where a straight
stretch ends higher than it starts it rises all the way; where it does not, it does not rise at once.
Where a concave function does not rise it never does again.
-/

variable {v : Int → Int} {a b s : Int}

/-- The steps up do not grow. -/
def ConcaveBetween (v : Int → Int) (a b : Int) : Prop :=
  ∀ s, a < s → s < b → v (s + 1) - v s ≤ v s - v (s - 1)

/-- The steps up are the same. -/
def StraightBetween (v : Int → Int) (a b : Int) : Prop :=
  ∀ s, a < s → s < b → v (s + 1) - v s = v s - v (s - 1)

namespace StraightBetween

theorem slope (h : StraightBetween v a b) (hs : a ≤ s) (hb : s < b) :
    v (s + 1) - v s = v (a + 1) - v a := by
  induction s, hs using Int.leInduction with
  | base => rfl
  | succ s hs ih =>
    have hstep := h (s + 1) (by omega) hb
    rw [show s + 1 - 1 = s by omega] at hstep
    rw [hstep]
    exact ih (by omega)

theorem eq_add (h : StraightBetween v a b) (hs : a ≤ s) (hb : s ≤ b) :
    v s = v a + (s - a) * (v (a + 1) - v a) := by
  induction s, hs using Int.leInduction with
  | base => simp
  | succ s hs ih =>
    have hslope := h.slope hs (by omega)
    rw [show v (s + 1) = v s + (v (a + 1) - v a) by omega, ih (by omega)]
    ring

theorem lt_of_lt (h : StraightBetween v a b) (hlt : v a < v b) (hs : a ≤ s) (hb : s < b) :
    v s < v b := by
  have hend := h.eq_add (show a ≤ b by omega) le_rfl
  have hmid := h.eq_add hs hb.le
  have hup : 0 < v (a + 1) - v a := by
    by_contra hdown
    have := mul_nonpos_of_nonneg_of_nonpos (show 0 ≤ b - a by omega) (not_lt.mp hdown)
    omega
  have hrest : 0 < (b - s) * (v (a + 1) - v a) := mul_pos (by omega) hup
  have hsplit : (b - a) * (v (a + 1) - v a) =
      (s - a) * (v (a + 1) - v a) + (b - s) * (v (a + 1) - v a) := by ring
  omega

theorem succ_le_of_le (h : StraightBetween v a b) (hab : a < b) (hle : v b ≤ v a) :
    v (a + 1) ≤ v a := by
  have hend := h.eq_add hab.le le_rfl
  by_contra hup
  have := mul_pos (show 0 < b - a by omega) (show 0 < v (a + 1) - v a by omega)
  omega

end StraightBetween

namespace ConcaveBetween

theorem slope_le (h : ConcaveBetween v a b) (hs : a ≤ s) (hb : s < b) :
    v (s + 1) - v s ≤ v (a + 1) - v a := by
  induction s, hs using Int.leInduction with
  | base => exact le_rfl
  | succ s hs ih =>
    have hstep := h (s + 1) (by omega) hb
    rw [show s + 1 - 1 = s by omega] at hstep
    exact hstep.trans (ih (by omega))

theorem le_of_succ_le (h : ConcaveBetween v a b) (hle : v (a + 1) ≤ v a) (hs : a ≤ s) (hb : s ≤ b) :
    v s ≤ v a := by
  induction s, hs using Int.leInduction with
  | base => exact le_rfl
  | succ s hs ih =>
    have hslope := h.slope_le hs (by omega)
    have := ih (by omega)
    omega

theorem mono {c d : Int} (h : ConcaveBetween v a b) (hc : a ≤ c) (hd : d ≤ b) : ConcaveBetween v c d :=
  fun s hs hs' => h s (by omega) (by omega)

end ConcaveBetween
