import PredictionIndexer.Spec.WindowTiling

/-!
# Window readiness

A sweep takes the uncommitted windows oldest first and stops at the first that must wait, so what
it returns is a prefix of them, and a later clock only makes the prefix longer. Before that the
windows no lane put anything in are added, one for each slot from the resume point to the latest
window.

The tiling is bounded. A gap of more than `maxSynthesizedWindows` slots is an error, and a wall
clock that far ahead is no horizon, so a later clock can also lose windows an earlier one had
tiled.
-/

namespace PredictionIndexer.Finalize

open Fallible Segments

/-! ## Eligibility -/

theorem eligibility_isReady_iff {window : Window} {status : WindowStatus} {expected : List String}
    {nowNs deadlineSeconds : Nat} :
    (eligibility window status expected nowNs deadlineSeconds).isReady = true ↔
      window.key.endNs ≤ nowNs ∧ (Window.unsatisfied expected status = [] ∨
        saturatingAdd window.key.endNs (saturatingMul deadlineSeconds 1000000000) ≤ nowNs) := by
  unfold eligibility
  by_cases hend : nowNs < window.key.endNs
  · simp [hend, Eligibility.isReady]
  · have hle : window.key.endNs ≤ nowNs := by omega
    rw [if_neg hend]
    by_cases hall : Window.unsatisfied expected status = []
    · simp [hall, hle, Eligibility.isReady]
    · by_cases hdeadline :
        saturatingAdd window.key.endNs (saturatingMul deadlineSeconds 1000000000) ≤ nowNs
      · simp [hall, hdeadline, hle, Eligibility.isReady]
      · simp [hall, hdeadline, Eligibility.isReady]

/-- A verdict that allows finalizing stands at every later clock. -/
theorem eligibility_of_le {window : Window} {status : WindowStatus} {expected : List String}
    {nowNs laterNs deadlineSeconds : Nat} (hle : nowNs ≤ laterNs)
    (h : (eligibility window status expected nowNs deadlineSeconds).isReady = true) :
    eligibility window status expected laterNs deadlineSeconds =
      eligibility window status expected nowNs deadlineSeconds := by
  obtain ⟨hend, hready⟩ := eligibility_isReady_iff.mp h
  have hnow : ¬nowNs < window.key.endNs := by omega
  have hlater : ¬laterNs < window.key.endNs := by omega
  unfold eligibility
  rcases hready with hall | hdeadline
  · simp [hall, hnow, hlater]
  · have hlong := hdeadline.trans hle
    simp [hnow, hlater, hdeadline, hlong]

/-! ## The plan -/

/-- Validating windows one after the other, with nothing decided yet. -/
def validateAll (mode : Arithmetic) (verify : String → String → Except Halt Unit)
    (cache : DigestCache) : List Window → Except Halt (List WindowStatus × DigestCache)
  | [] => pure ([], cache)
  | window :: windows => do
    let (status, cache) ← validateWindow mode verify window cache
    let (statuses, cache) ← validateAll mode verify cache windows
    return (status :: statuses, cache)

/-- The windows not committed yet, in the order of the map. -/
def Windows.uncommitted (windows : Windows) (committed : Std.ExtTreeSet Nat) :
    List (WindowKey × Window) :=
  windows.byKey.toList.filter fun e => !committed.contains e.1.startNs

/-- A window with its validation, judged by the clock. -/
def judge (expected : List String) (nowNs deadlineSeconds : Nat) (e : WindowKey × Window)
    (status : WindowStatus) : Ready :=
  ⟨e.1, eligibility e.2 status expected nowNs deadlineSeconds, status⟩

section Plan

variable {mode : Arithmetic} {verify : String → String → Except Halt Unit}
  {committed : Std.ExtTreeSet Nat} {expected : List String} {nowNs deadlineSeconds : Nat}

theorem readyFrom_cons_of_committed {cache : DigestCache} {e : WindowKey × Window}
    {windows : List (WindowKey × Window)} (h : committed.contains e.1.startNs = true) :
    readyFrom mode verify committed expected nowNs deadlineSeconds cache (e :: windows) =
      readyFrom mode verify committed expected nowNs deadlineSeconds cache windows := by
  obtain ⟨key, window⟩ := e
  simp only [readyFrom]
  rw [if_pos h]

/-- One round of the plan: the window waits and the plan ends, or it is taken. -/
theorem readyFrom_cons_eq_ok {cache : DigestCache} {e : WindowKey × Window}
    {windows : List (WindowKey × Window)} {ready : List Ready}
    (h : committed.contains e.1.startNs = false) :
    readyFrom mode verify committed expected nowNs deadlineSeconds cache (e :: windows) =
        .ok ready ↔
      ∃ status cache', validateWindow mode verify e.2 cache = .ok (status, cache') ∧
        (((judge expected nowNs deadlineSeconds e status).verdict.isReady = false ∧ ready = []) ∨
          ((judge expected nowNs deadlineSeconds e status).verdict.isReady = true ∧
            ∃ rest, readyFrom mode verify committed expected nowNs deadlineSeconds cache' windows =
                .ok rest ∧
              ready = judge expected nowNs deadlineSeconds e status :: rest)) := by
  obtain ⟨key, window⟩ := e
  simp only [readyFrom, h, Bool.false_eq_true, if_false, judge]
  rw [Except.bind_eq_ok]
  constructor
  · rintro ⟨⟨status, cache'⟩, hvalidate, hrest⟩
    refine ⟨status, cache', hvalidate, ?_⟩
    cases hready : (eligibility window status expected nowNs deadlineSeconds).isReady with
    | false => exact .inl ⟨rfl, by simpa [hready, eq_comm] using hrest⟩
    | true =>
      simp only [hready, Bool.not_true, Bool.false_eq_true, if_false] at hrest
      obtain ⟨rest, hrest, heq⟩ := Except.bind_eq_ok.mp hrest
      exact .inr ⟨rfl, rest, hrest, by simpa [eq_comm] using heq⟩
  · rintro ⟨status, cache', hvalidate, hcase⟩
    refine ⟨(status, cache'), hvalidate, ?_⟩
    rcases hcase with ⟨hready, rfl⟩ | ⟨hready, rest, hrest, rfl⟩
    · simp [hready]
    · simp [hready, hrest]

/-- What the plan takes and where it stops: the windows taken are validated one after the other
    and all may be finalized, and the next uncommitted one may not. -/
theorem readyFrom_eq_ok {cache : DigestCache} {windows : List (WindowKey × Window)}
    {ready : List Ready}
    (h : readyFrom mode verify committed expected nowNs deadlineSeconds cache windows =
      .ok ready) :
    ∃ taken left statuses cache',
      (windows.filter fun e => !committed.contains e.1.startNs) = taken ++ left ∧
      validateAll mode verify cache (taken.map (·.2)) = .ok (statuses, cache') ∧
      ready = List.zipWith (judge expected nowNs deadlineSeconds) taken statuses ∧
      statuses.length = taken.length ∧ (∀ r ∈ ready, r.verdict.isReady = true) ∧
      ∀ e ∈ left.head?, ∃ status cache'',
        validateWindow mode verify e.2 cache' = .ok (status, cache'') ∧
        (judge expected nowNs deadlineSeconds e status).verdict.isReady = false := by
  induction windows generalizing cache ready with
  | nil =>
    simp only [readyFrom, Except.pure_eq_ok, Except.ok.injEq] at h
    subst h
    exact ⟨[], [], [], cache, by simp [validateAll]⟩
  | cons e windows ih =>
    cases hcommitted : committed.contains e.1.startNs with
    | true =>
      rw [readyFrom_cons_of_committed hcommitted] at h
      simpa [List.filter_cons, hcommitted] using ih h
    | false =>
      obtain ⟨status, cache₁, hvalidate, hcase⟩ := (readyFrom_cons_eq_ok hcommitted).mp h
      rcases hcase with ⟨hwait, rfl⟩ | ⟨hready, rest, hrest, rfl⟩
      · refine ⟨[], e :: windows.filter fun e => !committed.contains e.1.startNs, [], cache, ?_⟩
        simp only [List.filter_cons, hcommitted]
        refine ⟨rfl, rfl, rfl, rfl, by simp, ?_⟩
        intro f hf
        cases hf
        exact ⟨status, cache₁, hvalidate, hwait⟩
      · obtain ⟨taken, left, statuses, cache', hfilter, hall, hzip, hlength, hverdicts, hleft⟩ :=
          ih hrest
        refine ⟨e :: taken, left, status :: statuses, cache', ?_, ?_, ?_, ?_, ?_, hleft⟩
        · simp [hcommitted, hfilter]
        · simp [validateAll, hvalidate, hall]
        · simp [hzip]
        · simp [hlength]
        · intro r hr
          rcases List.mem_cons.mp hr with rfl | hr
          · exact hready
          · exact hverdicts r hr

/-- A later clock over the same windows takes the same and perhaps more. -/
theorem readyFrom_mono {laterNs : Nat} {cache : DigestCache} {windows more : List (WindowKey × Window)}
    {ready later : List Ready} (hle : nowNs ≤ laterNs)
    (h : readyFrom mode verify committed expected nowNs deadlineSeconds cache windows = .ok ready)
    (hlater : readyFrom mode verify committed expected laterNs deadlineSeconds cache
      (windows ++ more) = .ok later) : ready <+: later := by
  induction windows generalizing cache ready later with
  | nil =>
    simp only [readyFrom, Except.pure_eq_ok, Except.ok.injEq] at h
    subst h
    exact List.nil_prefix
  | cons e windows ih =>
    rw [List.cons_append] at hlater
    cases hcommitted : committed.contains e.1.startNs with
    | true =>
      rw [readyFrom_cons_of_committed hcommitted] at h hlater
      exact ih h hlater
    | false =>
      obtain ⟨status, cache', hvalidate, hcase⟩ := (readyFrom_cons_eq_ok hcommitted).mp h
      rcases hcase with ⟨-, rfl⟩ | ⟨hready, rest, hrest, rfl⟩
      · exact List.nil_prefix
      · obtain ⟨status', cache'', hvalidate', hcase'⟩ :=
          (readyFrom_cons_eq_ok hcommitted).mp hlater
        -- both clocks see one validation, and a ready verdict does not depend on the clock
        rw [hvalidate] at hvalidate'
        cases hvalidate'
        have hsame : judge expected laterNs deadlineSeconds e status =
            judge expected nowNs deadlineSeconds e status := by
          simp only [judge]
          rw [eligibility_of_le hle hready]
        rw [hsame] at hcase'
        rcases hcase' with ⟨hwait, -⟩ | ⟨-, rest', hrest', rfl⟩
        · rw [hready] at hwait
          cases hwait
        · exact List.prefix_cons_inj _ |>.mpr (ih hrest hrest')

end Plan

/-! ## What a plan is -/

section Planned

variable (mode : Arithmetic) (verify : String → String → Except Halt Unit)
  (committed : Std.ExtTreeSet Nat) (expected : List String) (nowNs deadlineSeconds : Nat)

/-- The plan over some windows: the first of the uncommitted ones, each over and allowed to be
    finalized, up to one that must wait. -/
structure Planned (windows : Windows) (cache : DigestCache) (ready : List Ready) : Prop where
  initial : ready.map (·.key) <+: (windows.uncommitted committed).map (·.1)
  ascending : ready.Pairwise fun a b => compare a.key b.key = .lt
  ended : ∀ r ∈ ready, r.key.endNs ≤ nowNs
  verdicts : ∀ r ∈ ready, r.verdict.isReady = true
  judged : ∃ taken left statuses cache', windows.uncommitted committed = taken ++ left ∧
    validateAll mode verify cache (taken.map (·.2)) = .ok (statuses, cache') ∧
    ready = List.zipWith (judge expected nowNs deadlineSeconds) taken statuses ∧
    ∀ e ∈ left.head?, ∃ status cache'',
      validateWindow mode verify e.2 cache' = .ok (status, cache'') ∧
      (judge expected nowNs deadlineSeconds e status).verdict.isReady = false

end Planned

theorem map_key_zipWith {expected : List String} {nowNs deadlineSeconds : Nat}
    {taken : List (WindowKey × Window)} {statuses : List WindowStatus}
    (h : statuses.length = taken.length) :
    (List.zipWith (judge expected nowNs deadlineSeconds) taken statuses).map (·.key) =
      taken.map (·.1) := by
  induction taken generalizing statuses with
  | nil => rfl
  | cons e taken ih =>
    cases statuses with
    | nil => cases h
    | cons status statuses =>
      have htail : statuses.length = taken.length := by simpa using h
      simp [ih htail, judge]

theorem Windows.mem_uncommitted {windows : Windows} {committed : Std.ExtTreeSet Nat}
    {e : WindowKey × Window} (h : e ∈ windows.uncommitted committed) : e.2.key = e.1 :=
  windows.keyed e.1 e.2
    (Std.ExtTreeMap.mem_toList_iff_getElem?_eq_some.mp (List.mem_filter.mp h).1)

theorem readyWindows_planned {mode : Arithmetic} {verify : String → String → Except Halt Unit}
    {committed : Std.ExtTreeSet Nat} {expected : List String} {nowNs deadlineSeconds : Nat}
    {windows : Windows} {cache : DigestCache} {ready : List Ready}
    (h : readyWindows mode verify committed expected nowNs deadlineSeconds windows cache =
      .ok ready) :
    Planned mode verify committed expected nowNs deadlineSeconds windows cache ready := by
  obtain ⟨taken, left, statuses, cache', hfilter, hall, hzip, hlength, hverdicts, hleft⟩ :=
    readyFrom_eq_ok h
  have huncommitted : windows.uncommitted committed = taken ++ left := hfilter
  have hkeys : ready.map (·.key) = taken.map (·.1) := by rw [hzip, map_key_zipWith hlength]
  have hinitial : ready.map (·.key) <+: (windows.uncommitted committed).map (·.1) := by
    rw [hkeys, huncommitted, List.map_append]
    exact List.prefix_append _ _
  refine ⟨hinitial, ?_, ?_, hverdicts, taken, left, statuses, cache', hfilter, hall, hzip, hleft⟩
  · have hsorted : ((windows.uncommitted committed).map (·.1)).Pairwise
        fun a b => compare a b = .lt := by
      rw [List.pairwise_map]
      exact windows.byKey.ordered_keys_toList.filter _
    have hready := hsorted.sublist hinitial.sublist
    rwa [List.pairwise_map] at hready
  · intro r hr
    -- the verdict is about the window stored under this key
    have hjudged : r ∈ List.zipWith (judge expected nowNs deadlineSeconds) taken statuses :=
      hzip ▸ hr
    rw [← List.map_uncurry_zip_eq_zipWith, List.mem_map] at hjudged
    obtain ⟨⟨e, status⟩, hzipped, rfl⟩ := hjudged
    have hmem : e ∈ windows.uncommitted committed := by
      rw [huncommitted]
      exact List.mem_append_left _ (List.of_mem_zip hzipped).1
    have hend := (eligibility_isReady_iff.mp (hverdicts _ hr)).1
    rw [Windows.mem_uncommitted hmem] at hend
    exact hend

/-! ## What a tiling is -/

/-- The windows after a tiling that returned, next to the discovered ones. -/
structure Tiled (period : Period) (resumeAfterNs : Option Nat) (nowNs deadlineSeconds : Nat)
    (windows after : Windows) (added : Nat) : Prop where
  kept : ∀ k ∈ windows.byKey, after.byKey[k]? = windows.byKey[k]?
  /-- Every discovered window from the resume point on lies within the bounds. -/
  reaches : ∀ first, resumeAfterNs.or (windows.keys.map (·.startNs)).min? = some first →
    ∀ k ∈ windows.byKey, first ≤ k.startNs → ∃ newest,
      tilingBounds windows period resumeAfterNs nowNs deadlineSeconds = some (first, newest) ∧
      k.startNs ≤ newest
  /-- A slot no window starts at, up to the first at or behind the newest, gets exactly one. -/
  filled : ∀ first newest,
    tilingBounds windows period resumeAfterNs nowNs deadlineSeconds = some (first, newest) →
    ∀ i, i = 0 ∨ first + (i - 1) * period.ns < newest →
    windows.startsAt (slot period first i).startNs = false →
    after.byKey[slot period first i]? = some ⟨slot period first i, ∅⟩ ∧
    ∀ k, k ∈ after.byKey ∧ k.startNs = (slot period first i).startNs ↔ k = slot period first i
  /-- Windows on one grid end up adjacent: each instant lies in exactly one of them. -/
  covers : ∀ first newest,
    tilingBounds windows period resumeAfterNs nowNs deadlineSeconds = some (first, newest) →
    OnGrid period first windows →
    ∀ t, first ≤ t → t ≤ newest → ∃! k, k ∈ after.byKey ∧ k.startNs ≤ t ∧ t < k.endNs
  /-- Nothing else is added. -/
  others : ∀ k ∈ after.byKey, k ∉ windows.byKey → ∃ first newest i,
    tilingBounds windows period resumeAfterNs nowNs deadlineSeconds = some (first, newest) ∧
    (i = 0 ∨ first + (i - 1) * period.ns < newest) ∧ k = slot period first i ∧
    windows.startsAt k.startNs = false
  counted : ∀ first newest,
    tilingBounds windows period resumeAfterNs nowNs deadlineSeconds = some (first, newest) →
    added = absentCount period first (slotCount period first newest) windows

section Tiled

variable {period : Period} {resumeAfterNs : Option Nat} {nowNs laterNs deadlineSeconds : Nat}
  {windows after later : Windows} {added more : Nat}

theorem newest_lt_slot {first newest : Nat} :
    newest < first + slotCount period first newest * period.ns := by
  have hpos := period.pos
  have hle := @newest_le_slot period first newest
  have hcount : slotCount period first newest = slotCount period first newest - 1 + 1 := by
    simp [slotCount]
  have hmul := Nat.succ_mul (slotCount period first newest - 1) period.ns
  rw [Nat.succ_eq_add_one, ← hcount] at hmul
  omega

theorem tileAbsentWindows_tiled
    (h : tileAbsentWindows windows period resumeAfterNs nowNs deadlineSeconds =
      .ok (after, added)) :
    Tiled period resumeAfterNs nowNs deadlineSeconds windows after added := by
  have hreaches : ∀ first, resumeAfterNs.or (windows.keys.map (·.startNs)).min? = some first →
      ∀ k ∈ windows.byKey, first ≤ k.startNs → ∃ newest,
        tilingBounds windows period resumeAfterNs nowNs deadlineSeconds = some (first, newest) ∧
        k.startNs ≤ newest := by
    intro first hfirst k hk hle
    cases hbounds : tilingBounds windows period resumeAfterNs nowNs deadlineSeconds with
    | none =>
      have hlt := lt_of_tilingBounds_eq_none hbounds hfirst hk
      omega
    | some bounds =>
      obtain ⟨first', newest⟩ := bounds
      have hsame : first' = first := by
        have hfirst' := tilingBounds_first hbounds
        rw [hfirst] at hfirst'
        cases hfirst'
        rfl
      subst hsame
      exact ⟨newest, rfl, tilingBounds_le hbounds hk⟩
  rcases tileAbsentWindows_eq_ok h with ⟨hbounds, rfl, rfl⟩ | ⟨first, newest, hbounds, hfilled, hadded⟩
  · constructor
    case reaches => exact hreaches
    case kept => exact fun k _ => rfl
    case others => exact fun k hk hnew => absurd hk hnew
    all_goals
      intro first newest hsome
      rw [hbounds] at hsome
      cases hsome
  · have hpair : ∀ {f n}, tilingBounds windows period resumeAfterNs nowNs deadlineSeconds =
        some (f, n) → first = f ∧ newest = n := by
      intro f n hsome
      rw [hbounds] at hsome
      cases hsome
      exact ⟨rfl, rfl⟩
    constructor
    case reaches => exact hreaches
    case kept => exact fun k hk => hfilled.kept hk
    case filled =>
      intro f n hsome i hi habsent
      obtain ⟨rfl, rfl⟩ := hpair hsome
      have hcount := lt_slotCount_iff.mpr hi
      exact ⟨hfilled.slots i hcount habsent, fun k => hfilled.once hcount habsent⟩
    case covers =>
      intro f n hsome hgrid t hfirst ht
      obtain ⟨rfl, rfl⟩ := hpair hsome
      exact hfilled.exists_unique hgrid hfirst (ht.trans_lt newest_lt_slot)
    case others =>
      intro k hk hnew
      rcases hfilled.mem_iff.mp hk with hold | ⟨i, hi, heq, habsent⟩
      · exact absurd hold hnew
      · exact ⟨first, newest, i, hbounds, lt_slotCount_iff.mp hi, heq, habsent⟩
    case counted =>
      intro f n hsome
      obtain ⟨rfl, rfl⟩ := hpair hsome
      exact hadded

/-- The clock's horizon, where an earlier clock had one, is not declined at a later one. -/
def KeepsHorizon (period : Period) (resumeAfterNs : Option Nat) (nowNs laterNs deadlineSeconds : Nat)
    (windows : Windows) : Prop :=
  ∀ first, resumeAfterNs.or (windows.keys.map (·.startNs)).min? = some first →
    (wallHorizon period resumeAfterNs first nowNs deadlineSeconds).isSome →
    (wallHorizon period resumeAfterNs first laterNs deadlineSeconds).isSome

/-- Tiling up to a later clock appends to the windows. -/
theorem toList_prefix_of_le (hle : nowNs ≤ laterNs)
    (hkeeps : KeepsHorizon period resumeAfterNs nowNs laterNs deadlineSeconds windows)
    (h : tileAbsentWindows windows period resumeAfterNs nowNs deadlineSeconds = .ok (after, added))
    (hlater : tileAbsentWindows windows period resumeAfterNs laterNs deadlineSeconds =
      .ok (later, more)) : after.byKey.toList <+: later.byKey.toList := by
  rcases tileAbsentWindows_eq_ok h with ⟨hbounds, rfl, -⟩ | ⟨first, newest, hbounds, hfilled, -⟩
  · rcases tileAbsentWindows_eq_ok hlater with ⟨-, rfl, -⟩ | ⟨first, newest, hbounds', hfilled, -⟩
    · exact List.prefix_rfl
    · -- nothing was tiled before: the discovered windows are all behind the first slot
      have hfirst := tilingBounds_first hbounds'
      refine Filled.toList_prefix ⟨fun i hi => absurd hi (Nat.not_lt_zero i), fun k _ => rfl⟩
        hfilled (Nat.zero_le _) ?_
      intro k hk
      have hlt := lt_of_tilingBounds_eq_none hbounds hfirst hk
      omega
  · obtain ⟨newest', hnewest, hbounds'⟩ :=
      tilingBounds_mono hle (hkeeps first (tilingBounds_first hbounds)) hbounds
    rcases tileAbsentWindows_eq_ok hlater with ⟨hnone, -⟩ | ⟨first', n, hsome, hfilled', -⟩
    · rw [hbounds'] at hnone
      cases hnone
    · rw [hbounds'] at hsome
      cases hsome
      refine hfilled.toList_prefix hfilled' (slotCount_mono hnewest) ?_
      intro k hk
      exact (tilingBounds_le hbounds hk).trans_lt newest_lt_slot

end Tiled

theorem halfHour_pos : 0 < 1800 * 1000000000 := by decide

def halfHour : Period := ⟨1800 * 1000000000, halfHour_pos⟩

def Windows.empty : Windows := ⟨∅, fun _ _ h => by simp at h⟩

/-- The first window, and the first two, of a deployment in which no lane spoke. -/
def silent : Windows := Windows.empty.insertEmpty (slot halfHour 0 0)

def silentTwo : Windows := silent.insertEmpty (slot halfHour 0 1)

theorem tile_silent : tileAbsentWindows Windows.empty halfHour (some 0) halfHour.ns 0 =
    .ok (silent, 1) := by
  have hbounds : tilingBounds Windows.empty halfHour (some 0) halfHour.ns 0 = some (0, 0) := by
    decide +kernel
  rcases tileAbsentWindows_of_some hbounds with ⟨-, ⟨hmany, -⟩ | ⟨-, heq⟩⟩
  · exact absurd hmany (by decide +kernel)
  · rw [heq, tileFrom]
    rfl

theorem tile_silentTwo : tileAbsentWindows Windows.empty halfHour (some 0) (2 * halfHour.ns) 0 =
    .ok (silentTwo, 2) := by
  have hbounds : tilingBounds Windows.empty halfHour (some 0) (2 * halfHour.ns) 0 =
      some (0, halfHour.ns) := by
    decide +kernel
  rcases tileAbsentWindows_of_some hbounds with ⟨-, ⟨hmany, -⟩ | ⟨-, heq⟩⟩
  · exact absurd hmany (by decide +kernel)
  · rw [heq, tileFrom]
    change tileFrom halfHour halfHour.ns silent (0 + halfHour.ns) 1 = _
    rw [tileFrom]
    rfl

theorem ready_silent : readyWindows .checked (fun _ _ => .ok ()) ∅ [] halfHour.ns 0 silent ∅ =
    .ok [⟨slot halfHour 0 0, .complete, {}⟩] := by
  rfl

theorem ready_silentTwo :
    readyWindows .checked (fun _ _ => .ok ()) ∅ [] (2 * halfHour.ns) 0 silentTwo ∅ =
      .ok [⟨slot halfHour 0 0, .complete, {}⟩, ⟨slot halfHour 0 1, .complete, {}⟩] := by
  rfl

/-- Two windows with more silent slots between them than one run may add. -/
def farApart : Windows :=
  (Windows.empty.insertEmpty (slot halfHour 0 0)).insertEmpty (slot halfHour 0 10002)

end PredictionIndexer.Finalize
