import Mathlib

/-!
# Histories

A history is a list of dated values, oldest first. `valueAt` is the last value dated at or before an
instant. Two histories agree there if they differ in entries that are too late for the instant, or
in entries that a later one, not too late itself, stands in front of. `bisectRight` is the binary
search of Python's `bisect`, by which a history in order is read.
-/

namespace History

section Bisect

variable {τ : Type} [LinearOrder τ] {xs : List τ} {x y : τ} {i lo hi : Nat}

/-- The loop of `bisect_right` on the items from `lo` to `hi`. The fuel bounds how many they are. -/
def bisectFrom (xs : List τ) (x : τ) : Nat → Nat → Nat → Nat
  | 0, lo, _ => lo
  | fuel + 1, lo, hi =>
    if lo < hi then
      match xs[(lo + hi) / 2]? with
      | none => lo
      | some y => if x < y then bisectFrom xs x fuel lo ((lo + hi) / 2)
        else bisectFrom xs x fuel ((lo + hi) / 2 + 1) hi
    else lo

/-- `bisect.bisect_right` -/
def bisectRight (xs : List τ) (x : τ) : Nat := bisectFrom xs x xs.length 0 xs.length

/-- Where nothing is left between the bounds, they are the point. -/
theorem point_of_bounds (hhi : hi ≤ xs.length) (hlo : lo = hi)
    (hbelow : ∀ i y, xs[i]? = some y → i < lo → y ≤ x)
    (habove : ∀ i y, xs[i]? = some y → hi ≤ i → x < y) :
    lo ≤ xs.length ∧ ∀ i y, xs[i]? = some y → (i < lo ↔ y ≤ x) := by
  subst hlo
  refine ⟨hhi, fun i y hy => ⟨hbelow i y hy, fun hyx => ?_⟩⟩
  by_contra hge
  exact absurd (habove i y hy (by omega)) (not_lt.mpr hyx)

theorem bisectFrom_spec (hsorted : xs.Pairwise (· ≤ ·)) {fuel : Nat} (hfuel : hi - lo ≤ fuel)
    (hle : lo ≤ hi) (hhi : hi ≤ xs.length) (hbelow : ∀ i y, xs[i]? = some y → i < lo → y ≤ x)
    (habove : ∀ i y, xs[i]? = some y → hi ≤ i → x < y) :
    bisectFrom xs x fuel lo hi ≤ xs.length ∧
      ∀ i y, xs[i]? = some y → (i < bisectFrom xs x fuel lo hi ↔ y ≤ x) := by
  have hmono : ∀ (i j : Nat) (y z : τ), xs[i]? = some y → xs[j]? = some z → i ≤ j → y ≤ z := by
    intro i j y z hy hz hij
    obtain ⟨hi, rfl⟩ := List.getElem?_eq_some_iff.mp hy
    obtain ⟨hj, rfl⟩ := List.getElem?_eq_some_iff.mp hz
    rcases Nat.lt_or_eq_of_le hij with hij | rfl
    · exact List.pairwise_iff_getElem.mp hsorted i j hi hj hij
    · exact le_rfl
  induction fuel generalizing lo hi with
  | zero =>
    have hlo : lo = hi := by omega
    exact point_of_bounds hhi hlo hbelow habove
  | succ fuel ih =>
    rw [bisectFrom]
    split
    next hlt =>
      have hmid : (lo + hi) / 2 < xs.length := by omega
      have hget := List.getElem?_eq_getElem hmid
      rw [hget]
      simp only
      split
      next hx =>
        refine ih (by omega) (by omega) (by omega) hbelow ?_
        intro i y hy hi
        exact lt_of_lt_of_le hx (hmono _ _ _ _ hget hy hi)
      next hx =>
        refine ih (by omega) (by omega) hhi ?_ habove
        intro i y hy hi
        exact (hmono _ _ _ _ hy hget (by omega)).trans (not_lt.mp hx)
    next hlt =>
      have hlo : lo = hi := by omega
      exact point_of_bounds hhi hlo hbelow habove

theorem bisectRight_le_length (hsorted : xs.Pairwise (· ≤ ·)) (x : τ) :
    bisectRight xs x ≤ xs.length :=
  (bisectFrom_spec hsorted (by omega) (Nat.zero_le _) le_rfl (by omega)
    (fun i y hy hi => absurd (List.getElem?_eq_some_iff.mp hy).1 (by omega))).1

/-- The items in front of the point are the ones that are not greater. -/
theorem lt_bisectRight_iff (hsorted : xs.Pairwise (· ≤ ·)) (hy : xs[i]? = some y) :
    i < bisectRight xs x ↔ y ≤ x :=
  (bisectFrom_spec hsorted (by omega) (Nat.zero_le _) le_rfl (by omega)
    (fun i y hy hi => absurd (List.getElem?_eq_some_iff.mp hy).1 (by omega))).2 i y hy

end Bisect

section Value

variable {τ α : Type} [LinearOrder τ] {h h' : List (τ × α)} {t : τ}

/-- The last value dated at or before `t`. -/
def valueAt (h : List (τ × α)) (t : τ) : Option α :=
  ((h.filter fun e => e.1 ≤ t).getLast?).map (·.2)

@[simp] theorem valueAt_nil (t : τ) : valueAt ([] : List (τ × α)) t = none := rfl

theorem valueAt_append (h h' : List (τ × α)) (t : τ) :
    valueAt (h ++ h') t = (valueAt h' t).or (valueAt h t) := by
  rw [valueAt, valueAt, valueAt, List.filter_append, List.getLast?_append]
  cases (h'.filter fun e => e.1 ≤ t).getLast? <;> rfl

theorem valueAt_eq_none (hlate : ∀ e ∈ h, t < e.1) : valueAt h t = none := by
  rw [valueAt, List.filter_eq_nil_iff.mpr (by simpa using hlate)]
  rfl

theorem isSome_valueAt {e : τ × α} (he : e ∈ h) (hle : e.1 ≤ t) : (valueAt h t).isSome := by
  rw [valueAt, Option.isSome_map, List.getLast?_isSome]
  exact List.ne_nil_of_mem (List.mem_filter.mpr ⟨he, by simpa using hle⟩)

/-- Entries that are too late do not count. -/
theorem valueAt_append_of_lt (hlate : ∀ e ∈ h', t < e.1) : valueAt (h ++ h') t = valueAt h t := by
  rw [valueAt_append, valueAt_eq_none hlate]
  rfl

/-- Entries in front of one that is not too late do not count. -/
theorem valueAt_append_of_le {e : τ × α} (he : e ∈ h') (hle : e.1 ≤ t) :
    valueAt (h ++ h') t = valueAt h' t := by
  obtain ⟨v, hv⟩ := Option.isSome_iff_exists.mp (isSome_valueAt he hle)
  rw [valueAt_append, hv]
  rfl

theorem valueAt_concat (h : List (τ × α)) (s : τ) (v : α) (t : τ) :
    valueAt (h ++ [(s, v)]) t = if s ≤ t then some v else valueAt h t := by
  split
  next hle => rw [valueAt_append_of_le (List.mem_singleton_self _) hle, valueAt]; simp [hle]
  next hlt => exact valueAt_append_of_lt (by simpa using hlt)

/-- A history in order is read at the point of its dates. -/
theorem valueAt_eq_getElem? (hsorted : (h.map (·.1)).Pairwise (· ≤ ·)) (t : τ) :
    valueAt h t =
      if bisectRight (h.map (·.1)) t = 0 then none
      else (h.map (·.2))[bisectRight (h.map (·.1)) t - 1]? := by
  have hpoint : ∀ i e, h[i]? = some e → (i < bisectRight (h.map (·.1)) t ↔ e.1 ≤ t) := by
    intro i e he
    exact lt_bisectRight_iff hsorted (by rw [List.getElem?_map, he]; rfl)
  have hlength : bisectRight (h.map (·.1)) t ≤ h.length := by
    simpa using bisectRight_le_length hsorted t
  generalize bisectRight (h.map (·.1)) t = r at hpoint hlength ⊢
  have hfilter : (h.filter fun e => e.1 ≤ t) = h.take r := by
    have htake : (h.take r).filter (fun e => e.1 ≤ t) = h.take r := by
      rw [List.filter_eq_self]
      intro e he
      obtain ⟨i, hi, rfl⟩ := List.mem_iff_getElem.mp he
      rw [List.length_take] at hi
      rw [List.getElem_take]
      simpa using (hpoint i _ (List.getElem?_eq_getElem (by omega))).mp (by omega)
    have hdrop : (h.drop r).filter (fun e => e.1 ≤ t) = [] := by
      rw [List.filter_eq_nil_iff]
      intro e he
      obtain ⟨i, hi, rfl⟩ := List.mem_iff_getElem.mp he
      rw [List.length_drop] at hi
      rw [List.getElem_drop]
      simpa using mt (hpoint (r + i) _ (List.getElem?_eq_getElem (by omega))).mpr (by omega)
    conv_lhs => rw [← List.take_append_drop r h]
    rw [List.filter_append, htake, hdrop, List.append_nil]
  rw [valueAt, hfilter, List.getLast?_take]
  split
  next => rfl
  next hr =>
    rw [List.getElem?_map, List.getElem?_eq_getElem (by omega)]
    rfl

/-- A history in order without its first entries, as long as one that is not too late is left. -/
theorem valueAt_drop (hsorted : (h.map (·.1)).Pairwise (· ≤ ·)) {s : τ} (hle : s ≤ t) :
    valueAt (h.drop (bisectRight (h.map (·.1)) s - 1)) t = valueAt h t := by
  have hlength : bisectRight (h.map (·.1)) s ≤ h.length := by
    simpa using bisectRight_le_length hsorted s
  by_cases hzero : bisectRight (h.map (·.1)) s = 0
  · rw [hzero, List.drop_zero]
  · -- The entry in front of the point is left, and is not too late.
    have hlt : bisectRight (h.map (·.1)) s - 1 < h.length := by omega
    have hget : (h.map (·.1))[bisectRight (h.map (·.1)) s - 1]? =
        some h[bisectRight (h.map (·.1)) s - 1].1 := by
      rw [List.getElem?_map, List.getElem?_eq_getElem hlt]
      rfl
    have hdated : h[bisectRight (h.map (·.1)) s - 1].1 ≤ s :=
      (lt_bisectRight_iff hsorted hget).mp (by omega)
    have hmem : h[bisectRight (h.map (·.1)) s - 1] ∈
        h.drop (bisectRight (h.map (·.1)) s - 1) := by
      rw [List.drop_eq_getElem_cons hlt]
      exact List.mem_cons_self
    conv_rhs => rw [← List.take_append_drop (bisectRight (h.map (·.1)) s - 1) h]
    rw [valueAt_append_of_le hmem (hdated.trans hle)]

end Value

end History
