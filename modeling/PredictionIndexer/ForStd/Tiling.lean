import Mathlib

/-!
# Intervals that follow each other

A list of half-open intervals, each starting where the one before it ends. Together they are one
interval, so whether they cover another is a matter of two ends; and they have one order only, so
sorting by the start finds it from any other.
-/

namespace Tiling

variable {α τ : Type} {start stop : α → τ} {l : List α}

/-- Each interval starts where the one before it ends. -/
def Adjacent (start stop : α → τ) (l : List α) : Prop := l.IsChain fun a b => start b = stop a

theorem Adjacent.tail {a : α} (h : Adjacent start stop (a :: l)) : Adjacent start stop l :=
  List.IsChain.tail h

variable [LinearOrder τ]

/-- No interval is empty. -/
def Proper (start stop : α → τ) (l : List α) : Prop := ∀ a ∈ l, start a < stop a

/-- The point lies in one of the intervals. -/
def Covers (start stop : α → τ) (l : List α) (t : τ) : Prop := ∃ a ∈ l, start a ≤ t ∧ t < stop a

theorem Proper.tail {a : α} (h : Proper start stop (a :: l)) : Proper start stop l :=
  fun b hb => h b (List.mem_cons_of_mem a hb)

/-- What lies behind an interval starts behind it. -/
theorem Adjacent.stop_le (ha : Adjacent start stop l) (hp : Proper start stop l) :
    l.Pairwise fun a b => stop a ≤ start b := by
  induction l with
  | nil => exact .nil
  | cons a l ih =>
    refine List.pairwise_cons.mpr ⟨?_, ih ha.tail hp.tail⟩
    cases l with
    | nil => exact fun b hb => nomatch hb
    | cons b l =>
      have hstart : start b = stop a := (List.isChain_cons_cons.mp ha).1
      have hrest := List.pairwise_cons.mp (ih ha.tail hp.tail)
      intro c hc
      rcases List.mem_cons.mp hc with rfl | hc
      · exact hstart.symm.le
      · calc stop a = start b := hstart.symm
          _ ≤ stop b := (hp b (by simp)).le
          _ ≤ start c := hrest.1 c hc

/-- The intervals are the interval from the first start to the last end. -/
theorem Adjacent.covers_iff (ha : Adjacent start stop l) (hp : Proper start stop l) {first last : α}
    (hfirst : l.head? = some first) (hlast : l.getLast? = some last) {t : τ} :
    Covers start stop l t ↔ start first ≤ t ∧ t < stop last := by
  induction l generalizing first with
  | nil => cases hfirst
  | cons a l ih =>
    cases hfirst
    cases l with
    | nil =>
      cases hlast
      simp [Covers]
    | cons b l =>
      have hstart : start b = stop a := (List.isChain_cons_cons.mp ha).1
      have hrest := ih ha.tail hp.tail rfl (by simpa using hlast)
      have hsplit : Covers start stop (a :: b :: l) t ↔
          (start a ≤ t ∧ t < stop a) ∨ Covers start stop (b :: l) t := by simp [Covers]
      rw [hsplit, hrest, hstart]
      constructor
      · rintro (⟨hle, hlt⟩ | ⟨hle, hlt⟩)
        · -- the last interval ends behind the end of the first
          refine ⟨hle, hlt.trans_le ?_⟩
          have hmem : last ∈ b :: l := List.mem_of_getLast? (by simpa using hlast)
          exact ((List.pairwise_cons.mp (ha.stop_le hp)).1 last hmem).trans
            (hp last (List.mem_cons_of_mem a hmem)).le
        · exact ⟨(hp a List.mem_cons_self).le.trans hle, hlt⟩
      · rintro ⟨hle, hlt⟩
        rcases lt_or_ge t (stop a) with h | h
        · exact .inl ⟨hle, h⟩
        · exact .inr ⟨h, hlt⟩

/-- They cover an interval just if its ends lie between theirs. -/
theorem Adjacent.covers_interval_iff (ha : Adjacent start stop l) (hp : Proper start stop l)
    {first last : α} (hfirst : l.head? = some first) (hlast : l.getLast? = some last) {lo hi : τ}
    (hlt : lo < hi) :
    (∀ t, lo ≤ t → t < hi → Covers start stop l t) ↔ start first ≤ lo ∧ hi ≤ stop last := by
  constructor
  · intro h
    refine ⟨((ha.covers_iff hp hfirst hlast).mp (h lo le_rfl hlt)).1, ?_⟩
    by_contra hshort
    -- the end of the last interval, or the lower end, is not covered
    have hpoint := (ha.covers_iff hp hfirst hlast).mp
      (h (max lo (stop last)) (le_max_left _ _) (max_lt hlt (not_le.mp hshort)))
    exact absurd hpoint.2 (not_lt.mpr (le_max_right _ _))
  · rintro ⟨hstart, hstop⟩ t hle hlt
    exact (ha.covers_iff hp hfirst hlast).mpr ⟨hstart.trans hle, hlt.trans_le hstop⟩

/-- Any order of the intervals by their starts is the order they follow each other in. -/
theorem Adjacent.eq_of_perm (ha : Adjacent start stop l) (hp : Proper start stop l) {l' : List α}
    (hperm : l'.Perm l) (hsorted : l'.Pairwise fun a b => start a ≤ start b) : l' = l := by
  have hlt : l.Pairwise fun a b => start a < start b := by
    refine (ha.stop_le hp).imp_of_mem fun hmem _ hle => ?_
    exact (hp _ hmem).trans_le hle
  have hnodup : (l.map start).Nodup := by
    rw [List.Nodup, List.pairwise_map]
    exact hlt.imp ne_of_lt
  refine List.Perm.eq_of_pairwise ?_ hsorted (hlt.imp le_of_lt) hperm
  intro a b hmem hmem' hab hba
  exact List.inj_on_of_nodup_map hnodup (hperm.subset hmem) hmem' (le_antisymm hab hba)

end Tiling
