import PredictionIndexer.Finalize.Windows

/-!
# Tiling the silent windows

The loop of `tile_absent_windows` walks the slots from the first start to the first slot at or
behind the newest window. It ends, and every slot no window starts at gets one window without
lanes. Nothing else changes.
-/

namespace PredictionIndexer.Finalize

open Fallible

/-! ## Slots -/

/-- The slot `i` periods behind a start. -/
def slot (period : Period) (first i : Nat) : WindowKey :=
  ⟨first + i * period.ns, first + (i + 1) * period.ns⟩

/-- How many slots the loop visits: up to the first that starts at or behind the newest window. -/
def slotCount (period : Period) (first newest : Nat) : Nat :=
  (newest - first + (period.ns - 1)) / period.ns + 1

section Slots

variable {period : Period} {first newest i j : Nat}

theorem slot_succ : slot period first (i + 1) = slot period (first + period.ns) i := by
  simp only [slot, WindowKey.mk.injEq]
  constructor <;> ring

theorem slot_startNs_inj (h : (slot period first i).startNs = (slot period first j).startNs) :
    i = j := by
  have hmul : i * period.ns = j * period.ns := by
    simp only [slot] at h
    omega
  exact Nat.eq_of_mul_eq_mul_right period.pos hmul

theorem slotCount_of_ge (h : newest ≤ first) : slotCount period first newest = 1 := by
  have hpos := period.pos
  unfold slotCount
  rw [Nat.sub_eq_zero_of_le h, Nat.div_eq_of_lt (by omega)]

theorem slotCount_of_lt (h : first < newest) :
    slotCount period first newest = slotCount period (first + period.ns) newest + 1 := by
  have hpos := period.pos
  unfold slotCount
  by_cases hshort : newest ≤ first + period.ns
  · -- one more slot reaches the newest window
    rw [Nat.sub_eq_zero_of_le hshort, Nat.div_eq_of_lt (show 0 + (period.ns - 1) < _ by omega)]
    rw [Nat.div_eq_of_lt_le (k := 1) (by omega) (by omega)]
  · have hsplit : newest - first + (period.ns - 1) =
        newest - (first + period.ns) + (period.ns - 1) + period.ns := by omega
    rw [hsplit, Nat.add_div_right _ hpos]

/-- The last slot starts at or behind the newest window. -/
theorem newest_le_slot : newest ≤ first + (slotCount period first newest - 1) * period.ns := by
  have hpos := period.pos
  have hdiv := Nat.div_add_mod (newest - first + (period.ns - 1)) period.ns
  have hmod := Nat.mod_lt (newest - first + (period.ns - 1)) hpos
  have hmul : (newest - first + (period.ns - 1)) / period.ns * period.ns =
      period.ns * ((newest - first + (period.ns - 1)) / period.ns) := Nat.mul_comm _ _
  unfold slotCount
  rw [Nat.add_sub_cancel]
  omega

/-- The loop visits the slots that start before the newest window, and one more. -/
theorem lt_slotCount_iff : i < slotCount period first newest ↔
    i = 0 ∨ first + (i - 1) * period.ns < newest := by
  have hpos := period.pos
  cases i with
  | zero => simp [slotCount]
  | succ i =>
    have hlt : i + 1 < slotCount period first newest ↔
        i + 1 ≤ (newest - first + (period.ns - 1)) / period.ns := by
      unfold slotCount
      omega
    have hexpand : (i + 1) * period.ns = i * period.ns + period.ns := Nat.succ_mul i period.ns
    rw [hlt, Nat.le_div_iff_mul_le hpos, Nat.add_sub_cancel, hexpand]
    omega

end Slots

/-! ## Windows by their start -/

namespace Windows

variable {windows : Windows} {key : WindowKey} {start : Nat}

theorem startsAt_iff : windows.startsAt start = true ↔ ∃ k ∈ windows.byKey, k.startNs = start := by
  simp [startsAt, keys]

theorem startsAt_eq_false_iff :
    windows.startsAt start = false ↔ ∀ k ∈ windows.byKey, k.startNs ≠ start := by
  rw [← Bool.not_eq_true, startsAt_iff]
  simp

@[simp] theorem getElem?_insertEmpty (k : WindowKey) :
    (windows.insertEmpty key).byKey[k]? = if key = k then some ⟨key, ∅⟩ else windows.byKey[k]? := by
  simp [insertEmpty, Std.ExtTreeMap.getElem?_insert, Std.LawfulEqCmp.compare_eq_iff_eq]

theorem startsAt_insertEmpty :
    (windows.insertEmpty key).startsAt start = (windows.startsAt start || key.startNs = start) := by
  rw [Bool.eq_iff_iff, Bool.or_eq_true, startsAt_iff, startsAt_iff, decide_eq_true_eq]
  simp only [insertEmpty, Std.ExtTreeMap.mem_insert, Std.LawfulEqCmp.compare_eq_iff_eq]
  constructor
  · rintro ⟨k, rfl | hk, hstart⟩
    · exact .inr hstart
    · exact .inl ⟨k, hk, hstart⟩
  · rintro (⟨k, hk, hstart⟩ | hstart)
    · exact ⟨k, .inr hk, hstart⟩
    · exact ⟨key, .inl rfl, hstart⟩

end Windows

/-! ## The loop -/

/-- The windows after the loop has visited some slots: a slot no window started at holds a window
    without lanes, and nothing else changed. -/
structure Filled (period : Period) (first count : Nat) (before after : Windows) : Prop where
  slots : ∀ i < count, before.startsAt (slot period first i).startNs = false →
    after.byKey[slot period first i]? = some ⟨slot period first i, ∅⟩
  others : ∀ k, (∀ i < count, k = slot period first i → before.startsAt k.startNs = true) →
    after.byKey[k]? = before.byKey[k]?

/-- How many of the slots no window starts at. -/
def absentCount (period : Period) (first count : Nat) (before : Windows) : Nat :=
  (List.range count).countP fun i => !before.startsAt (first + i * period.ns)

section Loop

variable {period : Period} {first newest start added count : Nat} {before windows after : Windows}

theorem absentCount_succ : absentCount period start (count + 1) windows =
    (if windows.startsAt start = false then 1 else 0) +
      absentCount period (start + period.ns) count windows := by
  unfold absentCount
  rw [List.range_succ_eq_map, List.countP_cons, List.countP_map, Nat.add_comm]
  congr 1
  · simp
  · refine List.countP_congr fun i _ => ?_
    have hshift : start + (i + 1) * period.ns = start + period.ns + i * period.ns := by ring
    simp [hshift]

/-- The first slot leaves what starts at the later ones alone. -/
theorem absentCount_insertEmpty : absentCount period (start + period.ns) count
    (windows.insertEmpty (slot period start 0)) =
      absentCount period (start + period.ns) count windows := by
  have hpos := period.pos
  refine List.countP_congr fun i _ => ?_
  have hne : (slot period start 0).startNs ≠ start + period.ns + i * period.ns := by
    simp only [slot]
    omega
  simp [Windows.startsAt_insertEmpty, hne]

/-- Visiting the first slot and then the rest is visiting all of them. -/
theorem Filled.cons {next : Windows}
    (hnext : next = if windows.startsAt start = false then
      windows.insertEmpty (slot period start 0) else windows)
    (h : Filled period (start + period.ns) count next after) :
    Filled period start (count + 1) windows after := by
  have hpos := period.pos
  have hfirst : (slot period start 0).startNs = start := by simp [slot]
  have hlater : ∀ i, (slot period (start + period.ns) i).startNs ≠ start := by
    intro i
    simp only [slot]
    omega
  have hgrows : ∀ s, s ≠ start → next.startsAt s = windows.startsAt s := by
    intro s hs
    rw [hnext]
    split
    · rw [Windows.startsAt_insertEmpty, hfirst]
      simp [Ne.symm hs]
    · rfl
  constructor
  · intro i hi habsent
    cases i with
    | zero =>
      rw [hfirst] at habsent
      -- no later slot is the first one, so what was put there stays
      rw [h.others _ fun i _ heq => absurd (heq ▸ hfirst) (hlater i), hnext, if_pos habsent]
      simp
    | succ i =>
      rw [slot_succ] at habsent ⊢
      exact h.slots i (by omega) (by rw [hgrows _ (hlater i)]; exact habsent)
  · intro k hk
    have hsame : next.byKey[k]? = windows.byKey[k]? := by
      rw [hnext]
      split
      next habsent =>
        have hne : slot period start 0 ≠ k := by
          intro heq
          have hpresent := hk 0 (by omega) heq.symm
          rw [← heq, hfirst, habsent] at hpresent
          cases hpresent
        simp [hne]
      next => rfl
    rw [← hsame]
    apply h.others
    intro i hi heq
    have hpresent := hk (i + 1) (by omega) (by rw [heq, slot_succ])
    rw [hgrows _ (by rw [heq]; exact hlater i)]
    exact hpresent

/-- The loop returns just if the end of its last slot is a `u64`, and then every slot is filled. -/
theorem tileFrom_of_lt (h : start + slotCount period start newest * period.ns < 2 ^ 64) :
    ∃ after, tileFrom period newest windows start added =
        .ok (after, added + absentCount period start (slotCount period start newest) windows) ∧
      Filled period start (slotCount period start newest) windows after := by
  have hpos := period.pos
  induction hcount : slotCount period start newest generalizing start windows added with
  | zero => simp [slotCount] at hcount
  | succ count ih =>
    rw [hcount] at h
    have hmul : (count + 1) * period.ns = count * period.ns + period.ns := Nat.succ_mul _ _
    have hadd : checkedAdd start period.ns = some (start + period.ns) :=
      checkedAdd_eq_some.mpr ⟨by omega, rfl⟩
    have hslot : slot period start 0 = ⟨start, start + period.ns⟩ := by simp [slot]
    obtain ⟨next, hnext⟩ : ∃ next, next = if windows.startsAt start = false then
      windows.insertEmpty (slot period start 0) else windows := ⟨_, rfl⟩
    have hcounted : (if windows.startsAt start = false then added + 1 else added) =
        added + (if windows.startsAt start = false then 1 else 0) := by
      split <;> rfl
    have hstep : tileFrom period newest windows start added =
        if start ≥ newest then
          .ok (next, added + if windows.startsAt start = false then 1 else 0)
        else tileFrom period newest next (start + period.ns)
          (added + if windows.startsAt start = false then 1 else 0) := by
      rw [tileFrom, hadd, ← hcounted, hnext, hslot]
      simp
    rw [hstep]
    by_cases hlast : start ≥ newest
    · have hone : count = 0 := by
        rw [slotCount_of_ge hlast] at hcount
        omega
      subst hone
      rw [if_pos hlast]
      refine ⟨next, ?_, Filled.cons hnext ?_⟩
      · rw [absentCount_succ]
        simp [absentCount]
      · exact ⟨fun i hi => absurd hi (by omega), fun k _ => rfl⟩
    · have hrest : slotCount period (start + period.ns) newest = count := by
        rw [slotCount_of_lt (by omega)] at hcount
        omega
      obtain ⟨after, hafter, hfilled⟩ := @ih (start + period.ns)
        (added + if windows.startsAt start = false then 1 else 0) next
        (by rw [hrest]; omega) hrest
      have hsame : absentCount period (start + period.ns) count next =
          absentCount period (start + period.ns) count windows := by
        rw [hnext]
        split
        · exact absentCount_insertEmpty
        · rfl
      rw [if_neg hlast]
      refine ⟨after, ?_, Filled.cons hnext hfilled⟩
      rw [hafter, hsame, absentCount_succ, Nat.add_assoc]

theorem tileFrom_of_le (h : 2 ^ 64 ≤ start + slotCount period start newest * period.ns) :
    ∃ detail, tileFrom period newest windows start added = .error detail := by
  have hpos := period.pos
  induction hcount : slotCount period start newest generalizing start windows added with
  | zero => simp [slotCount] at hcount
  | succ count ih =>
    rw [hcount] at h
    have hmul : (count + 1) * period.ns = count * period.ns + period.ns := Nat.succ_mul _ _
    rw [tileFrom]
    cases hadd : checkedAdd start period.ns with
    | none => exact ⟨_, rfl⟩
    | some endNs =>
      have hend := checkedAdd_eq_some.mp hadd
      by_cases hlast : start ≥ newest
      · -- the last slot has an end, so this was not it
        rw [slotCount_of_ge hlast] at hcount
        have hone : count = 0 := by omega
        subst hone
        omega
      · have hrest : slotCount period (start + period.ns) newest = count := by
          rw [slotCount_of_lt (by omega)] at hcount
          omega
        simp only [hlast, dite_false]
        exact ih (by rw [hrest]; omega) hrest

end Loop

section Filled

variable {period : Period} {first count : Nat} {before after : Windows} {k : WindowKey}

theorem mem_of_getElem? {windows : Windows} {w : Window} (h : windows.byKey[k]? = some w) :
    k ∈ windows.byKey :=
  Std.ExtTreeMap.mem_iff_isSome_getElem?.mpr (by rw [h, Option.isSome_some])

/-- A discovered window stays as it is. -/
theorem Filled.kept (h : Filled period first count before after) (hk : k ∈ before.byKey) :
    after.byKey[k]? = before.byKey[k]? := by
  apply h.others
  intro _ _ _
  exact Windows.startsAt_iff.mpr ⟨k, hk, rfl⟩

/-- The windows afterwards are the discovered ones and the slots none of them starts at. -/
theorem Filled.mem_iff (h : Filled period first count before after) :
    k ∈ after.byKey ↔ k ∈ before.byKey ∨
      ∃ i < count, k = slot period first i ∧ before.startsAt k.startNs = false := by
  constructor
  · intro hk
    by_cases hslot : ∃ i < count, k = slot period first i ∧ before.startsAt k.startNs = false
    · exact .inr hslot
    · left
      rw [Std.ExtTreeMap.mem_iff_isSome_getElem?] at hk ⊢
      rw [← h.others k ?_]
      · exact hk
      · intro i hi heq
        by_contra hpresent
        exact hslot ⟨i, hi, heq, by simpa using hpresent⟩
  · rintro (hk | ⟨i, hi, rfl, habsent⟩)
    · rw [Std.ExtTreeMap.mem_iff_isSome_getElem?] at hk ⊢
      rwa [h.kept (Std.ExtTreeMap.mem_iff_isSome_getElem?.mpr hk)]
    · exact mem_of_getElem? (h.slots i hi habsent)

/-- Exactly one window starts at a slot no discovered window starts at. -/
theorem Filled.once (h : Filled period first count before after) {i : Nat} (hi : i < count)
    (habsent : before.startsAt (slot period first i).startNs = false) :
    k ∈ after.byKey ∧ k.startNs = (slot period first i).startNs ↔ k = slot period first i := by
  constructor
  · rintro ⟨hk, hstart⟩
    rcases h.mem_iff.mp hk with hold | ⟨j, -, rfl, -⟩
    · exact absurd hstart (Windows.startsAt_eq_false_iff.mp habsent k hold)
    · rw [slot_startNs_inj hstart]
  · rintro rfl
    exact ⟨mem_of_getElem? (h.slots i hi habsent), rfl⟩

/-- Discovered windows that lie on the grid of the first slot, each one period long. -/
def OnGrid (period : Period) (first : Nat) (windows : Windows) : Prop :=
  ∀ k ∈ windows.byKey, k.startNs ≡ first [MOD period.ns] ∧ k.endNs = k.startNs + period.ns

theorem slot_endNs {i : Nat} : (slot period first i).endNs = (slot period first i).startNs +
    period.ns := by
  simp only [slot]
  ring

/-- The slot an instant lies in is determined by the grid. -/
theorem startNs_eq_slot {t : Nat} (hfirst : first ≤ t) (hgrid : k.startNs ≡ first [MOD period.ns])
    (hle : k.startNs ≤ t) (hlt : t < k.startNs + period.ns) :
    k.startNs = (slot period first ((t - first) / period.ns)).startNs := by
  have hpos := period.pos
  have hdiv := Nat.div_add_mod (t - first) period.ns
  have hmod := Nat.mod_lt (t - first) hpos
  have hcomm : period.ns * ((t - first) / period.ns) = (t - first) / period.ns * period.ns :=
    Nat.mul_comm _ _
  obtain ⟨n, hn⟩ : ∃ n, n = (t - first) / period.ns := ⟨_, rfl⟩
  rw [← hn] at hdiv hcomm ⊢
  have hslot : (slot period first n).startNs = first + n * period.ns := rfl
  -- both starts are at most one period before the instant, and congruent
  have hcongr : k.startNs ≡ first + n * period.ns [MOD period.ns] :=
    hgrid.trans (by simp [Nat.ModEq])
  rcases Nat.lt_trichotomy k.startNs (first + n * period.ns) with hlow | heq | hhigh
  · have hdvd := (Nat.modEq_iff_dvd' hlow.le).mp hcongr
    have hstep := Nat.le_of_dvd (by omega) hdvd
    omega
  · rw [hslot, heq]
  · have hdvd := (Nat.modEq_iff_dvd' hhigh.le).mp hcongr.symm
    have hstep := Nat.le_of_dvd (by omega) hdvd
    omega

/-- Over discovered windows on one grid the slots leave no instant out and none in two windows. -/
theorem Filled.exists_unique (h : Filled period first count before after)
    (hgrid : OnGrid period first before) {t : Nat} (hfirst : first ≤ t)
    (ht : t < first + count * period.ns) :
    ∃! k, k ∈ after.byKey ∧ k.startNs ≤ t ∧ t < k.endNs := by
  have hpos := period.pos
  have hgrid' : OnGrid period first after := by
    intro k hk
    rcases h.mem_iff.mp hk with hold | ⟨i, -, rfl, -⟩
    · exact hgrid k hold
    · exact ⟨by simp [slot, Nat.ModEq], slot_endNs⟩
  obtain ⟨i, hi⟩ : ∃ i, i = (t - first) / period.ns := ⟨_, rfl⟩
  have hcount : i < count := by
    rw [hi, Nat.div_lt_iff_lt_mul hpos]
    omega
  have hwithin : (slot period first i).startNs ≤ t ∧
      t < (slot period first i).startNs + period.ns := by
    have hdiv := Nat.div_add_mod (t - first) period.ns
    have hmod := Nat.mod_lt (t - first) hpos
    rw [← hi, Nat.mul_comm] at hdiv
    simp only [slot]
    omega
  obtain ⟨k, hk, hstart⟩ : ∃ k ∈ after.byKey, k.startNs = (slot period first i).startNs := by
    cases hpresent : before.startsAt (slot period first i).startNs with
    | true =>
      obtain ⟨k, hk, hstart⟩ := Windows.startsAt_iff.mp hpresent
      exact ⟨k, h.mem_iff.mpr (.inl hk), hstart⟩
    | false => exact ⟨_, ((h.once hcount hpresent).mpr rfl).1, rfl⟩
  refine ⟨k, ⟨hk, by omega, by rw [(hgrid' k hk).2]; omega⟩, ?_⟩
  rintro k' ⟨hk', hle, hlt⟩
  obtain ⟨hcongr, hend⟩ := hgrid' k' hk'
  have hstart' := startNs_eq_slot hfirst hcongr hle (by omega)
  rw [← hi] at hstart'
  have hsame : k'.startNs = k.startNs := by rw [hstart', hstart]
  have hsame' : k'.endNs = k.endNs := by rw [hend, (hgrid' k hk).2, hsame]
  cases k
  cases k'
  cases hsame
  cases hsame'
  rfl

end Filled

/-! ## The whole tiling -/

/-- Where the tiling begins and the newest window it reaches, when there is anything to tile. -/
def tilingBounds (windows : Windows) (period : Period) (resumeAfterNs : Option Nat)
    (nowNs deadlineSeconds : Nat) : Option (Nat × Nat) :=
  let starts := windows.keys.map (·.startNs)
  (resumeAfterNs.or starts.min?).bind fun first =>
    ((starts.max?.toList ++
        (wallHorizon period resumeAfterNs first nowNs deadlineSeconds).toList).max?).bind
      fun newest => if first ≤ newest then some (first, newest) else none

/-- The tiling refuses: too many slots, or a slot whose end is no `u64`. -/
def Refuses (period : Period) (first newest : Nat) : Prop :=
  maxSynthesizedWindows < (newest - first) / period.ns ∨
    2 ^ 64 ≤ first + slotCount period first newest * period.ns

section Tiling

variable {windows after : Windows} {period : Period} {resumeAfterNs : Option Nat}
  {nowNs deadlineSeconds first newest added : Nat}

theorem tileAbsentWindows_of_none
    (h : tilingBounds windows period resumeAfterNs nowNs deadlineSeconds = none) :
    tileAbsentWindows windows period resumeAfterNs nowNs deadlineSeconds = .ok (windows, 0) := by
  unfold tileAbsentWindows
  unfold tilingBounds at h
  cases hfirst : resumeAfterNs.or (windows.keys.map (·.startNs)).min? with
  | none => simp only [hfirst]
  | some first =>
    simp only [hfirst, Option.bind_some] at h ⊢
    cases hnewest : (((windows.keys.map (·.startNs)).max?.toList ++
        (wallHorizon period resumeAfterNs first nowNs deadlineSeconds).toList).max?) with
    | none => rfl
    | some newest =>
      simp only [hnewest, Option.bind_some, ite_eq_right_iff, reduceCtorEq, imp_false,
        not_le] at h ⊢
      rw [if_pos h]

theorem tileAbsentWindows_of_some
    (h : tilingBounds windows period resumeAfterNs nowNs deadlineSeconds = some (first, newest)) :
    first ≤ newest ∧ ((maxSynthesizedWindows < (newest - first) / period.ns ∧ ∃ detail,
        tileAbsentWindows windows period resumeAfterNs nowNs deadlineSeconds = .error detail) ∨
      (¬maxSynthesizedWindows < (newest - first) / period.ns ∧
        tileAbsentWindows windows period resumeAfterNs nowNs deadlineSeconds =
          tileFrom period newest windows first 0)) := by
  unfold tilingBounds at h
  obtain ⟨first', hfirst, h⟩ := Option.bind_eq_some_iff.mp h
  obtain ⟨newest', hnewest, h⟩ := Option.bind_eq_some_iff.mp h
  obtain ⟨hle, heq⟩ := Option.ite_none_right_eq_some.mp h
  cases heq
  refine ⟨hle, ?_⟩
  unfold tileAbsentWindows
  simp only [hfirst, hnewest]
  rw [if_neg (show ¬first > newest by omega)]
  by_cases hmany : maxSynthesizedWindows < (newest - first) / period.ns
  · -- more than no slots lie between them, so the newest is behind the first
    have hlt : newest > first := by
      by_contra hge
      rw [Nat.sub_eq_zero_of_le (by omega), Nat.zero_div] at hmany
      omega
    left
    refine ⟨hmany, ?_⟩
    rw [if_pos (by simp [hlt, hmany])]
    exact ⟨_, rfl⟩
  · right
    refine ⟨hmany, ?_⟩
    rw [if_neg (by simp [hmany])]

theorem tileAbsentWindows_eq_error_iff :
    (∃ detail, tileAbsentWindows windows period resumeAfterNs nowNs deadlineSeconds =
        .error detail) ↔
      ∃ first newest, tilingBounds windows period resumeAfterNs nowNs deadlineSeconds =
        some (first, newest) ∧ Refuses period first newest := by
  cases hbounds : tilingBounds windows period resumeAfterNs nowNs deadlineSeconds with
  | none => simp [tileAbsentWindows_of_none hbounds]
  | some bounds =>
    obtain ⟨first, newest⟩ := bounds
    have hiff : (∃ f n, some (first, newest) = some (f, n) ∧ Refuses period f n) ↔
        Refuses period first newest := by
      simp
    rw [hiff]
    rcases tileAbsentWindows_of_some hbounds with ⟨-, ⟨hmany, herror⟩ | ⟨hfew, heq⟩⟩
    · exact ⟨fun _ => .inl hmany, fun _ => herror⟩
    · rw [heq]
      constructor
      · intro herror
        by_contra hrefuses
        obtain ⟨after, hafter, -⟩ := @tileFrom_of_lt period newest first 0 windows
          (by unfold Refuses at hrefuses; omega)
        obtain ⟨detail, hdetail⟩ := herror
        rw [hafter] at hdetail
        cases hdetail
      · intro hrefuses
        exact tileFrom_of_le (hrefuses.resolve_left hfew)

/-- A tiling that returns has filled every slot between its bounds, and counted what it added. -/
theorem tileAbsentWindows_eq_ok
    (h : tileAbsentWindows windows period resumeAfterNs nowNs deadlineSeconds =
      .ok (after, added)) :
    (tilingBounds windows period resumeAfterNs nowNs deadlineSeconds = none ∧ after = windows ∧
        added = 0) ∨
      ∃ first newest, tilingBounds windows period resumeAfterNs nowNs deadlineSeconds =
          some (first, newest) ∧
        Filled period first (slotCount period first newest) windows after ∧
        added = absentCount period first (slotCount period first newest) windows := by
  cases hbounds : tilingBounds windows period resumeAfterNs nowNs deadlineSeconds with
  | none =>
    rw [tileAbsentWindows_of_none hbounds] at h
    cases h
    exact .inl ⟨rfl, rfl, rfl⟩
  | some bounds =>
    obtain ⟨first, newest⟩ := bounds
    right
    refine ⟨first, newest, rfl, ?_⟩
    rcases tileAbsentWindows_of_some hbounds with ⟨-, ⟨-, detail, herror⟩ | ⟨-, heq⟩⟩
    · rw [herror] at h
      cases h
    · rw [heq] at h
      have hlt : first + slotCount period first newest * period.ns < 2 ^ 64 := by
        by_contra hlarge
        obtain ⟨detail, hdetail⟩ :=
          @tileFrom_of_le period newest first 0 windows (not_lt.mp hlarge)
        rw [hdetail] at h
        cases h
      obtain ⟨after', hafter, hfilled⟩ := @tileFrom_of_lt period newest first 0 windows hlt
      rw [hafter, Nat.zero_add] at h
      cases h
      exact ⟨hfilled, rfl⟩

end Tiling

/-! ## Where the tiling begins and ends -/

section Bounds

variable {windows : Windows} {period : Period} {resumeAfterNs : Option Nat}
  {nowNs deadlineSeconds first newest : Nat}

theorem mem_starts {start : Nat} :
    start ∈ windows.keys.map (·.startNs) ↔ ∃ k ∈ windows.byKey, k.startNs = start := by
  simp [Windows.keys]

theorem tilingBounds_first
    (h : tilingBounds windows period resumeAfterNs nowNs deadlineSeconds = some (first, newest)) :
    resumeAfterNs.or (windows.keys.map (·.startNs)).min? = some first := by
  unfold tilingBounds at h
  obtain ⟨first', hfirst, h⟩ := Option.bind_eq_some_iff.mp h
  obtain ⟨newest', -, h⟩ := Option.bind_eq_some_iff.mp h
  obtain ⟨-, heq⟩ := Option.ite_none_right_eq_some.mp h
  cases heq
  exact hfirst

/-- Every discovered window starts at or before the newest. -/
theorem tilingBounds_le (h : tilingBounds windows period resumeAfterNs nowNs deadlineSeconds =
    some (first, newest)) {k : WindowKey} (hk : k ∈ windows.byKey) : k.startNs ≤ newest := by
  unfold tilingBounds at h
  obtain ⟨first', hfirst, h⟩ := Option.bind_eq_some_iff.mp h
  obtain ⟨newest', hnewest, h⟩ := Option.bind_eq_some_iff.mp h
  obtain ⟨hle, heq⟩ := Option.ite_none_right_eq_some.mp h
  cases heq
  have hmem : k.startNs ∈ windows.keys.map (·.startNs) := mem_starts.mpr ⟨k, hk, rfl⟩
  obtain ⟨latest, hlatest⟩ : ∃ latest, (windows.keys.map (·.startNs)).max? = some latest := by
    cases hmax : (windows.keys.map (·.startNs)).max? with
    | none => simp [List.max?_eq_none_iff.mp hmax] at hmem
    | some latest => exact ⟨latest, rfl⟩
  have hle' : k.startNs ≤ latest := (List.max?_eq_some_iff.mp hlatest).2 _ hmem
  exact hle'.trans ((List.max?_eq_some_iff.mp hnewest).2 latest (by simp [hlatest]))

/-- With nothing to tile from a start on, every discovered window starts before it. -/
theorem lt_of_tilingBounds_eq_none
    (h : tilingBounds windows period resumeAfterNs nowNs deadlineSeconds = none)
    (hfirst : resumeAfterNs.or (windows.keys.map (·.startNs)).min? = some first) {k : WindowKey}
    (hk : k ∈ windows.byKey) : k.startNs < first := by
  have hmem : k.startNs ∈ windows.keys.map (·.startNs) := mem_starts.mpr ⟨k, hk, rfl⟩
  unfold tilingBounds at h
  simp only [hfirst, Option.bind_some] at h
  cases hmax : (windows.keys.map (·.startNs)).max? with
  | none => simp [List.max?_eq_none_iff.mp hmax] at hmem
  | some latest =>
    have hle : k.startNs ≤ latest := (List.max?_eq_some_iff.mp hmax).2 _ hmem
    cases hnewest : (((windows.keys.map (·.startNs)).max?.toList ++
        (wallHorizon period resumeAfterNs first nowNs deadlineSeconds).toList).max?) with
    | none => simp [hmax] at hnewest
    | some newest =>
      have hle' : latest ≤ newest := (List.max?_eq_some_iff.mp hnewest).2 latest (by simp [hmax])
      simp only [hnewest, Option.bind_some, ite_eq_right_iff, reduceCtorEq, imp_false] at h
      omega

theorem expiredNewest_mono {laterNs expired expired' : Nat} (hle : nowNs ≤ laterNs)
    (h : expiredNewest period nowNs deadlineSeconds = some expired)
    (h' : expiredNewest period laterNs deadlineSeconds = some expired') : expired ≤ expired' := by
  unfold expiredNewest at h h'
  obtain ⟨cutoff, hcutoff, h⟩ := Option.bind_eq_some_iff.mp h
  obtain ⟨cutoff', hcutoff', h'⟩ := Option.bind_eq_some_iff.mp h'
  rw [checkedSub_eq_some] at hcutoff hcutoff' h h'
  have hdiv : cutoff / period.ns * period.ns ≤ cutoff' / period.ns * period.ns :=
    Nat.mul_le_mul_right _ (Nat.div_le_div_right (by omega))
  omega

theorem wallHorizon_mono {laterNs expired expired' : Nat} (hle : nowNs ≤ laterNs)
    (h : wallHorizon period resumeAfterNs first nowNs deadlineSeconds = some expired)
    (h' : wallHorizon period resumeAfterNs first laterNs deadlineSeconds = some expired') :
    expired ≤ expired' := by
  unfold wallHorizon at h h'
  obtain ⟨-, h⟩ := Option.ite_none_right_eq_some.mp h
  obtain ⟨-, h'⟩ := Option.ite_none_right_eq_some.mp h'
  exact expiredNewest_mono hle (Option.filter_eq_some_iff.mp h).1 (Option.filter_eq_some_iff.mp h').1

/-- A clock that keeps its horizon reaches at least as far as an earlier one, from one start. -/
theorem tilingBounds_mono {laterNs : Nat} (hle : nowNs ≤ laterNs)
    (hhorizon : (wallHorizon period resumeAfterNs first nowNs deadlineSeconds).isSome →
      (wallHorizon period resumeAfterNs first laterNs deadlineSeconds).isSome)
    (h : tilingBounds windows period resumeAfterNs nowNs deadlineSeconds = some (first, newest)) :
    ∃ newest', newest ≤ newest' ∧
      tilingBounds windows period resumeAfterNs laterNs deadlineSeconds =
        some (first, newest') := by
  unfold tilingBounds at h ⊢
  obtain ⟨first', hfirst, h⟩ := Option.bind_eq_some_iff.mp h
  obtain ⟨newest', hnewest, h⟩ := Option.bind_eq_some_iff.mp h
  obtain ⟨hbounds, heq⟩ := Option.ite_none_right_eq_some.mp h
  cases heq
  obtain ⟨hmem, -⟩ := List.max?_eq_some_iff.mp hnewest
  -- what was the newest before is now behind something
  obtain ⟨later, hlater, hle'⟩ : ∃ later ∈ (windows.keys.map (·.startNs)).max?.toList ++
      (wallHorizon period resumeAfterNs first laterNs deadlineSeconds).toList,
      newest ≤ later := by
    rcases List.mem_append.mp hmem with hobserved | hwall
    · exact ⟨newest, List.mem_append_left _ hobserved, le_rfl⟩
    · have hsome := Option.mem_toList.mp hwall
      obtain ⟨later, hlater⟩ := Option.isSome_iff_exists.mp (hhorizon (by simp [hsome]))
      exact ⟨later, by simp [hlater], wallHorizon_mono hle hsome hlater⟩
  cases hmax : ((windows.keys.map (·.startNs)).max?.toList ++
      (wallHorizon period resumeAfterNs first laterNs deadlineSeconds).toList).max? with
  | none => simp [List.max?_eq_none_iff.mp hmax] at hlater
  | some newest' =>
    have hbehind := (List.max?_eq_some_iff.mp hmax).2 later hlater
    refine ⟨newest', by omega, ?_⟩
    simp only [hfirst, hmax, Option.bind_some]
    rw [if_pos (by omega)]

theorem slotCount_mono {newest' : Nat} (h : newest ≤ newest') :
    slotCount period first newest ≤ slotCount period first newest' := by
  unfold slotCount
  have hdiv : (newest - first + (period.ns - 1)) / period.ns ≤
      (newest' - first + (period.ns - 1)) / period.ns := Nat.div_le_div_right (by omega)
  omega

/-- Filling more slots behind everything there is appends to the windows in order. -/
theorem Filled.toList_prefix {count count' : Nat} {after after' : Windows}
    (h : Filled period first count windows after) (h' : Filled period first count' windows after')
    (hcount : count ≤ count')
    (hbefore : ∀ k ∈ windows.byKey, k.startNs < first + count * period.ns) :
    after.byKey.toList <+: after'.byKey.toList := by
  apply Std.ExtTreeMap.toList_prefix_toList
  · intro k w hw
    rcases h.mem_iff.mp (mem_of_getElem? hw) with hk | ⟨i, hi, rfl, habsent⟩
    · rw [h'.kept hk, ← h.kept hk, hw]
    · rw [h'.slots i (by omega) habsent, ← h.slots i hi habsent, hw]
  · intro k hk hnew j hj
    -- a key only the longer run has is a slot behind those of the shorter
    obtain ⟨i, hi, rfl, habsent⟩ : ∃ i < count', k = slot period first i ∧
        windows.startsAt k.startNs = false := by
      rcases h'.mem_iff.mp hk with hold | hslot
      · exact absurd (h.mem_iff.mpr (.inl hold)) hnew
      · exact hslot
    have hi' : count ≤ i := by
      by_contra hlt
      exact hnew (h.mem_iff.mpr (.inr ⟨i, by omega, rfl, habsent⟩))
    have hmul : count * period.ns ≤ i * period.ns := Nat.mul_le_mul_right _ hi'
    apply WindowKey.compare_eq_lt.mpr
    left
    rcases h.mem_iff.mp hj with hold | ⟨l, hl, rfl, -⟩
    · have hlt := hbefore j hold
      simp only [slot]
      omega
    · have hmul' : (l + 1) * period.ns ≤ i * period.ns := Nat.mul_le_mul_right _ (by omega)
      have hsucc : (l + 1) * period.ns = l * period.ns + period.ns := Nat.succ_mul _ _
      have hpos := period.pos
      simp only [slot]
      omega

end Bounds

end PredictionIndexer.Finalize
