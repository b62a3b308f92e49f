import PredictionIndexer.Fees.Schedules

/-!
# Schedule resolution

What a resolver selects changes only at a start or an end of a schedule that applies, so it stands
until the boundary the resolver names. It is a function of the catalog and the arguments, whatever
the resolver was asked before. A component's schedule is selected just if one schedule stands, with
one more condition where a Kalshi event override leaves a field to the series.
-/

namespace PredictionIndexer.Fees

/-! ## The index -/

@[simp] theorem indexed_nil (key : Venue × Product) : indexed [] key = [] := rfl

theorem indexed_addToIndex (index : ScheduleIndex) (s : CatalogSchedule) (key : Venue × Product) :
    indexed (addToIndex index s) key =
      indexed index key ++ if (s.scope.venue, s.scope.product) = key then [s] else [] := by
  unfold addToIndex indexed
  by_cases hany : (index.any (·.1 = (s.scope.venue, s.scope.product))) = true
  · -- an entry of the key is there, and grows
    simp only [hany, if_true, List.find?_map]
    have hkey : (fun entry : (Venue × Product) × List CatalogSchedule => decide (entry.1 = key)) ∘
        (fun entry => if entry.1 = (s.scope.venue, s.scope.product) then (entry.1, entry.2 ++ [s])
          else entry) = fun entry => decide (entry.1 = key) := by
      funext entry
      simp only [Function.comp]
      split <;> rfl
    rw [hkey]
    cases hfind : index.find? (·.1 = key) with
    | none =>
      have hne : (s.scope.venue, s.scope.product) ≠ key := by
        rintro rfl
        obtain ⟨entry, hentry, hsame⟩ := List.any_eq_true.mp hany
        exact absurd hsame (List.find?_eq_none.mp hfind entry hentry)
      simp [hne]
    | some entry =>
      have hentry : entry.1 = key := by simpa using List.find?_some hfind
      simp only [Option.map_some, hentry]
      by_cases hkey : key = (s.scope.venue, s.scope.product)
      · simp [hkey]
      · simp [hkey, Ne.symm hkey]
  · -- the key is new
    simp only [hany, Bool.false_eq_true, if_false, List.find?_append]
    cases hfind : index.find? (·.1 = key) with
    | none => by_cases hkey : (s.scope.venue, s.scope.product) = key <;> simp [hkey]
    | some entry =>
      have hne : (s.scope.venue, s.scope.product) ≠ key := by
        rintro rfl
        have hentry : entry.1 = (s.scope.venue, s.scope.product) := by
          simpa using List.find?_some hfind
        exact hany (List.any_eq_true.mpr
          ⟨entry, List.mem_of_find?_eq_some hfind, by simpa using hentry⟩)
      simp [hne]

/-- Under a key stand the schedules of that venue and product, in the catalog's order. -/
theorem indexed_scheduleIndex (schedules : List CatalogSchedule) (key : Venue × Product) :
    indexed (scheduleIndex schedules) key =
      schedules.filter fun s => (s.scope.venue, s.scope.product) = key := by
  induction schedules using List.reverseRecOn with
  | nil => rfl
  | append_singleton schedules s ih =>
    have hstep : scheduleIndex (schedules ++ [s]) = addToIndex (scheduleIndex schedules) s := by
      simp [scheduleIndex]
    rw [hstep, indexed_addToIndex, ih, List.filter_append]
    by_cases hkey : (s.scope.venue, s.scope.product) = key <;> simp [hkey]

namespace ScheduleResolver

variable {ids : Digests}

/-- The schedules of the catalog that match a context, as known at the cutoff. -/
def applying (r : ScheduleResolver ids) (context : Context) (cutoff : Option Int) :
    List CatalogSchedule :=
  r.catalog.schedules.filter fun s => s.scope.isMatch context && match cutoff with
    | none => true
    | some cutoff => s.knownAt ≤ cutoff

theorem candidates_scheduleIndex (r : ScheduleResolver ids) (context : Context)
    (cutoff : Option Int) :
    candidates (scheduleIndex r.catalog.schedules) context cutoff = r.applying context cutoff := by
  unfold candidates applying
  rw [indexed_scheduleIndex, List.filter_filter]
  refine List.filter_congr fun s _ => ?_
  -- a match is of the context's venue and product
  by_cases hkey : s.scope.venue = context.venue ∧ s.scope.product = context.product
  · cases cutoff <;> simp [hkey]
  · have hmatch : s.scope.isMatch context = false := by
      simp only [Scope.isMatch]
      grind
    simp [hmatch]

theorem nodup_applying (r : ScheduleResolver ids) (context : Context) (cutoff : Option Int) :
    (r.applying context cutoff).Nodup := by
  have hnodup : (r.catalog.schedules.map ids.schedule).Nodup :=
    r.catalog.sorted.imp ne_of_lt
  exact (List.Nodup.of_map _ hnodup).filter _

end ScheduleResolver

/-! ## The boundary -/

section Boundary

variable {ids : Digests} {reference : Option Int} {t t' : Int} {pool : List CatalogSchedule}

/-- Between two times with no boundary of it, a schedule is in force at both or at neither. -/
theorem isActive_eq_of_no_boundary {s : CatalogSchedule} (hle : t ≤ t')
    (hno : ∀ b ∈ s.effectiveFrom.toList ++ s.effectiveTo.toList, t < b → t' < b) :
    s.isActive reference t = s.isActive reference t' := by
  unfold CatalogSchedule.isActive
  cases hfrom : s.effectiveFrom with
  | none => rfl
  | some start =>
    have hstart : t < start → t' < start := hno start (by simp [hfrom])
    have hstarts : (start ≤ t) = (start ≤ t') := by
      apply propext
      omega
    cases hto : s.effectiveTo with
    | none => simp [hstarts]
    | some stop =>
      have hstop : t < stop → t' < stop := hno stop (by simp [hto])
      have hstops : (t < stop) = (t' < stop) := by
        apply propext
        omega
      simp [hstarts, hstops]

/-- A choice looks at a time only for what is in force. -/
theorem choose_congr (component : Component)
    (h : ∀ s ∈ pool, s.isActive reference t = s.isActive reference t') :
    choose ids reference t component pool = choose ids reference t' component pool := by
  have hactive : (pool.filter (·.component = component)).filter (·.isActive reference t) =
      (pool.filter (·.component = component)).filter (·.isActive reference t') :=
    List.filter_congr fun s hs => h s (List.mem_of_mem_filter hs)
  simp only [choose, hactive]

theorem lt_of_lt_boundary (hbefore : ∀ b ∈ (ScheduleResolver.boundaries pool t).min?, t' < b)
    {s : CatalogSchedule} (hs : s ∈ pool) {b : Int}
    (hb : b ∈ s.effectiveFrom.toList ++ s.effectiveTo.toList) (hahead : t < b) : t' < b := by
  have hmem : b ∈ ScheduleResolver.boundaries pool t := by
    simp only [ScheduleResolver.boundaries, List.mem_filter, List.mem_flatMap, decide_eq_true_eq]
    exact ⟨⟨s, hs, hb⟩, hahead⟩
  cases hmin : (ScheduleResolver.boundaries pool t).min? with
  | none =>
    rw [List.min?_eq_none_iff.mp hmin] at hmem
    exact absurd hmem List.not_mem_nil
  | some first =>
    have hfirst : t' < first := hbefore first (by simp [hmin])
    have hleast : first ≤ b := (List.min?_eq_some_iff.mp hmin).2 b hmem
    omega

end Boundary

/-! ## What is selected -/

/-- A schedule that is chosen. -/
def Chosen.schedule : Chosen → Option CatalogSchedule
  | .selection choice => some choice.schedule
  | .unknown _ => none

section Selected

variable (ids : Digests) (reference : Option Int) (time : Int) (pool : List CatalogSchedule)

/-- A schedule of the pool that is in force, and none in force ranks higher. -/
structure Leads (s : CatalogSchedule) : Prop where
  mem : s ∈ pool
  active : s.isActive reference time = true
  highest : ∀ other ∈ pool, other.isActive reference time = true →
    other.scope.rank ≤ s.scope.rank

/-- A leading schedule that no leading schedule supersedes. -/
def Stands (s : CatalogSchedule) : Prop :=
  Leads reference time pool s ∧
    ∀ other, Leads reference time pool other → ids.schedule s ∉ other.supersedes

/-- One schedule stands, and every schedule of unknown history ranks below it. -/
structure Selected (s : CatalogSchedule) : Prop where
  stands : Stands ids reference time pool s
  alone : ∀ other, Stands ids reference time pool other → other = s
  known : ∀ u ∈ pool, u.effectiveFrom = none → reference = none → u.scope.rank < s.scope.rank

end Selected

section Choose

variable {ids : Digests} {reference : Option Int} {time : Int}
  {pool active : List CatalogSchedule} {s : CatalogSchedule}

theorem foldl_max_rank (active : List CatalogSchedule) (rank : Int) :
    let top := active.foldl (fun rank s => max rank (s.scope.rank : Int)) rank
    rank ≤ top ∧ (∀ s ∈ active, (s.scope.rank : Int) ≤ top) ∧
      (top = rank ∨ ∃ s ∈ active, (s.scope.rank : Int) = top) := by
  induction active generalizing rank with
  | nil => simp
  | cons s active ih =>
    obtain ⟨hrank, hall, htop⟩ := ih (max rank s.scope.rank)
    simp only [List.foldl_cons, List.mem_cons, forall_eq_or_imp, exists_eq_or_imp]
    refine ⟨by omega, ⟨by omega, hall⟩, ?_⟩
    rcases htop with htop | htop
    · rcases max_choice rank (s.scope.rank : Int) with hmax | hmax
      · exact .inl (htop.trans hmax)
      · exact .inr (.inl (htop.trans hmax).symm)
    · exact .inr (.inr htop)

/-- A member has the highest rank just if no member ranks higher. -/
theorem rank_eq_maxRank_iff (hs : s ∈ active) :
    (s.scope.rank : Int) = maxRank active ↔ ∀ other ∈ active, other.scope.rank ≤ s.scope.rank := by
  obtain ⟨_, hall, htop⟩ := foldl_max_rank active (-1)
  have hle : (s.scope.rank : Int) ≤ maxRank active := hall s hs
  constructor
  · intro heq other hother
    have hother' : (other.scope.rank : Int) ≤ maxRank active := hall other hother
    omega
  · intro hhighest
    rcases htop with htop | ⟨other, hother, htop⟩
    · have hneg : maxRank active = -1 := htop
      omega
    · have heq : (other.scope.rank : Int) = maxRank active := htop
      have hother' := hhighest other hother
      omega

/-- The schedules in force of the highest rank are those that lead. -/
theorem mem_leading_iff :
    s ∈ (pool.filter (·.isActive reference time)).filter
        (fun s => (s.scope.rank : Int) = maxRank (pool.filter (·.isActive reference time))) ↔
      Leads reference time pool s := by
  rw [List.mem_filter, decide_eq_true_eq]
  constructor
  · rintro ⟨hs, hrank⟩
    have hall := (rank_eq_maxRank_iff hs).mp hrank
    rw [List.mem_filter] at hs
    exact ⟨hs.1, hs.2, fun other hother hactive => hall other (List.mem_filter.mpr ⟨hother, hactive⟩)⟩
  · intro h
    have hs : s ∈ pool.filter (·.isActive reference time) := List.mem_filter.mpr ⟨h.mem, h.active⟩
    refine ⟨hs, (rank_eq_maxRank_iff hs).mpr fun other hother => ?_⟩
    rw [List.mem_filter] at hother
    exact h.highest other hother.1 hother.2

/-- The leading schedules that are left after supersession are those that stand. -/
theorem mem_standing_iff {leading : List CatalogSchedule}
    (hleading : ∀ s, s ∈ leading ↔ Leads reference time pool s) :
    s ∈ leading.filter (fun s => ids.schedule s ∉ leading.flatMap (·.supersedes)) ↔
      Stands ids reference time pool s := by
  simp only [List.mem_filter, List.mem_flatMap, decide_eq_true_eq, not_exists, not_and, hleading]
  rfl

/-- `choose` selects a schedule just if it is selected among those of the component. -/
theorem choose_schedule_iff (hnodup : pool.Nodup) (component : Component) :
    (choose ids reference time component pool).schedule = some s ↔
      Selected ids reference time (pool.filter (·.component = component)) s := by
  have hnodup := hnodup.filter (p := fun s => s.component = component)
  generalize hpool : pool.filter (·.component = component) = pool' at hnodup
  unfold choose
  simp only [hpool]
  generalize hactive : pool'.filter (·.isActive reference time) = active
  generalize hleading : active.filter (fun s => (s.scope.rank : Int) = maxRank active) = leading
  have hleads : ∀ s, s ∈ leading ↔ Leads reference time pool' s := by
    intro s
    rw [← hleading, ← hactive]
    exact mem_leading_iff
  generalize hstanding : leading.filter
    (fun s => ids.schedule s ∉ leading.flatMap (·.supersedes)) = standing
  have hstands : ∀ s, s ∈ standing ↔ Stands ids reference time pool' s := by
    intro s
    rw [← hstanding]
    exact mem_standing_iff hleads
  have hrank : ∀ s, Stands ids reference time pool' s → (s.scope.rank : Int) = maxRank active := by
    intro s h
    have hmem : s ∈ leading := (hleads s).mpr h.1
    rw [← hleading, List.mem_filter, decide_eq_true_eq] at hmem
    exact hmem.2
  split
  next huncertain =>
    -- a schedule of unknown history ranks at least as high
    obtain ⟨u, hu, hrank'⟩ := List.any_eq_true.mp huncertain
    simp only [List.mem_filter, decide_eq_true_eq, Bool.and_eq_true] at hu hrank'
    refine iff_of_false (by simp [Chosen.schedule]) fun h => ?_
    have hbelow := h.known u hu.1 hu.2.1 hu.2.2
    have htop := hrank s h.stands
    omega
  next huncertain =>
    have hknown : ∀ s, Stands ids reference time pool' s → ∀ u ∈ pool', u.effectiveFrom = none →
        reference = none → u.scope.rank < s.scope.rank := by
      intro s h u hu hfrom href
      by_contra hge
      have htop := hrank s h
      exact huncertain (List.any_eq_true.mpr ⟨u, by simp [hu, hfrom, href], by
        rw [decide_eq_true_eq]
        omega⟩)
    match hcase : standing with
    | [] =>
      refine iff_of_false (by simp [Chosen.schedule]) fun h => ?_
      exact absurd ((hstands s).mpr h.stands) (by simp)
    | [x] =>
      have hx : Stands ids reference time pool' x := (hstands x).mp (by simp)
      simp only [Chosen.schedule, Option.some.injEq]
      constructor
      · rintro rfl
        exact ⟨hx, fun other hother => by simpa using (hstands other).mpr hother, hknown x hx⟩
      · intro h
        exact h.alone x hx
    | x :: y :: rest =>
      refine iff_of_false (by simp [Chosen.schedule]) fun h => ?_
      have hx := h.alone x ((hstands x).mp (by simp))
      have hy := h.alone y ((hstands y).mp (by simp))
      have hnodup : (x :: y :: rest).Nodup := by
        rw [← hstanding, ← hleading, ← hactive]
        exact ((hnodup.filter _).filter _).filter _
      simp [hx, hy] at hnodup

/-- A choice starts from its schedule's own model. -/
theorem model_of_choose {component : Component} {choice : Choice}
    (h : choose ids reference time component pool = .selection choice) :
    choice.model = choice.schedule.model := by
  unfold choose at h
  simp only at h
  split at h
  · cases h
  · split at h <;> cases h
    rfl

end Choose

/-! ## The merge -/

/-- A schedule of the series that can fill what an event override leaves to it. -/
structure FillsFor (base s : CatalogSchedule) : Prop where
  kalshi : ∃ kind multiplier, base.model = .kalshi kind multiplier
  economics : base.economics = s.economics
  feeAsset : base.feeAsset = s.feeAsset
  feeScale : base.feeScale = s.feeScale

theorem fillCleared_schedule_iff {choice : Choice} {kind : Option KalshiKind}
    {multiplier : Option Fixed} {series : Chosen} {s : CatalogSchedule}
    (hseries : ∀ base, series = .selection base → base.model = base.schedule.model) :
    (fillCleared choice kind multiplier series).schedule = some s ↔ choice.schedule = s ∧
      ∃ base, series.schedule = some base ∧ FillsFor base s := by
  cases series with
  | unknown u => simp [fillCleared, Chosen.schedule]
  | selection base =>
    have hown : base.model = base.schedule.model := hseries base rfl
    simp only [fillCleared, Chosen.schedule, Option.some.injEq, exists_eq_left']
    cases hmodel : base.model with
    | kalshi baseKind baseMultiplier =>
      rw [hown] at hmodel
      by_cases hother : base.schedule.economics ≠ choice.schedule.economics ∨
          base.schedule.feeAsset ≠ choice.schedule.feeAsset ∨
          base.schedule.feeScale ≠ choice.schedule.feeScale
      · simp only [hother, if_true]
        refine iff_of_false (by simp) ?_
        rintro ⟨rfl, hfills⟩
        exact hother.elim (· hfills.economics) (·.elim (· hfills.feeAsset) (· hfills.feeScale))
      · simp only [hother, if_false, Option.some.injEq, iff_self_and]
        simp only [not_or, ne_eq, not_not] at hother
        rintro rfl
        exact ⟨⟨baseKind, baseMultiplier, hmodel⟩, hother.1, hother.2.1, hother.2.2⟩
    | _ =>
      refine iff_of_false (by simp) ?_
      rintro ⟨_, ⟨kind, multiplier, hkalshi⟩, _⟩
      rw [hown, hkalshi] at hmodel
      cases hmodel

/-- A Kalshi model with a field left to the series is merged, any other choice stands. -/
theorem mergeSeries_selection (choice : Choice) (series : Chosen) :
    (choice.model.isCleared = true ∧ ∃ kind multiplier,
      mergeSeries (.selection choice) series = fillCleared choice kind multiplier series) ∨
    (choice.model.isCleared = false ∧
      mergeSeries (.selection choice) series = .selection choice) := by
  cases hmodel : choice.model with
  | kalshi kind multiplier =>
    by_cases hmissing : kind = none ∨ multiplier = none
    · exact .inl ⟨by simpa [Model.isCleared] using hmissing, kind, multiplier,
        by simp [mergeSeries, hmodel, hmissing]⟩
    · exact .inr ⟨by simpa [Model.isCleared] using hmissing,
        by simp [mergeSeries, hmodel, hmissing]⟩
  | _ => exact .inr ⟨rfl, by simp [mergeSeries, hmodel]⟩

/-- The merge keeps the schedule of the platform, where a cleared one has a base. -/
theorem mergeSeries_schedule_iff {platform series : Chosen} {s : CatalogSchedule}
    (hplatform : ∀ choice, platform = .selection choice → choice.model = choice.schedule.model)
    (hseries : ∀ base, series = .selection base → base.model = base.schedule.model) :
    (mergeSeries platform series).schedule = some s ↔ platform.schedule = some s ∧
      (s.model.isCleared = true → ∃ base, series.schedule = some base ∧ FillsFor base s) := by
  cases platform with
  | unknown u => simp [mergeSeries, Chosen.schedule]
  | selection choice =>
    have hown : choice.model = choice.schedule.model := hplatform choice rfl
    have hchoice : (Chosen.selection choice).schedule = some s ↔ choice.schedule = s := by
      simp [Chosen.schedule]
    obtain ⟨hcleared, kind, multiplier, hmerge⟩ | ⟨hcleared, hmerge⟩ :=
      mergeSeries_selection choice series
    · rw [hmerge, fillCleared_schedule_iff hseries, hchoice]
      constructor
      · rintro ⟨rfl, hbase⟩
        exact ⟨rfl, fun _ => hbase⟩
      · rintro ⟨rfl, hbase⟩
        exact ⟨rfl, hbase (by rwa [← hown])⟩
    · rw [hmerge, hchoice]
      constructor
      · rintro rfl
        rw [hown] at hcleared
        exact ⟨rfl, fun h => absurd h (by simp [hcleared])⟩
      · exact And.left

/-! ## The memo -/

/-- `resolve`'s arguments. -/
structure Call where
  context : Context
  eventTime : Int
  cutoff : Option Int

section Memo

variable {ids : Digests}

namespace ScheduleResolver

/-- What is computed for a key. -/
def computed (r : ScheduleResolver ids) (key : MemoKey) : ScheduleSet :=
  r.compute r.identities (scheduleIndex r.catalog.schedules) key

/-- The memo behind calls, from a fresh one. -/
def after (r : ScheduleResolver ids) (calls : List Call) : ResolverMemo :=
  calls.foldl (fun memo call => (r.resolve call.context call.eventTime call.cutoff memo).2) {}

end ScheduleResolver

/-- What a memo holds is derived from its resolver. -/
structure ResolverMemo.Valid (r : ScheduleResolver ids) (memo : ResolverMemo) : Prop where
  identities : memo.identities.getD r.identities = r.identities
  index : memo.index.getD (scheduleIndex r.catalog.schedules) = scheduleIndex r.catalog.schedules
  selections : Memo.Valid r.computed memo.selections

variable {r : ScheduleResolver ids} {memo : ResolverMemo}

theorem valid_fresh : ResolverMemo.Valid r {} := ⟨rfl, rfl, Memo.valid_nil⟩

theorem select_fst (h : memo.Valid r) (key : MemoKey) : (r.select key memo).1 = r.computed key := by
  have hanswer : (Memo.answer r.computed 1024 key memo.selections).1 = r.computed key :=
    Memo.answer_fst h.selections
  simp only [ScheduleResolver.select, h.identities, h.index]
  split <;> exact hanswer

theorem valid_select (h : memo.Valid r) (key : MemoKey) : (r.select key memo).2.Valid r := by
  have hanswer : Memo.Valid r.computed (Memo.answer r.computed 1024 key memo.selections).2 :=
    Memo.valid_answer h.selections
  simp only [ScheduleResolver.select, h.identities, h.index]
  split
  · exact ⟨h.identities, h.index, hanswer⟩
  · exact ⟨rfl, rfl, hanswer⟩

variable {context : Context} {t t' : Int} {cutoff : Option Int}

theorem valid_resolve (h : memo.Valid r) (context : Context) (t : Int) (cutoff : Option Int) :
    (r.resolve context t cutoff memo).2.Valid r := by
  unfold ScheduleResolver.resolve
  split
  · exact h
  · split
    · exact h
    · split
      · split
        · exact h
        · exact valid_select h _
      · exact valid_select h _

/-- No run of calls spoils the memo. -/
theorem valid_after (r : ScheduleResolver ids) (calls : List Call) : (r.after calls).Valid r := by
  induction calls using List.reverseRecOn with
  | nil => exact valid_fresh
  | append_singleton calls call ih =>
    simp only [ScheduleResolver.after, List.foldl_append, List.foldl_cons, List.foldl_nil]
    exact valid_resolve ih call.context call.eventTime call.cutoff

/-- A valid memo answers as a fresh one. -/
theorem resolve_fst_eq (h : memo.Valid r) (context : Context) (t : Int) (cutoff : Option Int) :
    (r.resolve context t cutoff memo).1 = (r.resolve context t cutoff {}).1 := by
  have hselect (key : MemoKey) : (r.select key memo).1 = (r.select key {}).1 := by
    rw [select_fst h, select_fst valid_fresh]
  unfold ScheduleResolver.resolve
  split
  · rfl
  · split
    · rfl
    · split
      · split
        · rfl
        · simp only [hselect]
      · simp only [hselect]

/-- The calls that are accepted. -/
structure Accepted (r : ScheduleResolver ids) (t : Int) (cutoff : Option Int) : Prop where
  nonneg : 0 ≤ t
  inTime : ∀ known ∈ cutoff, 0 ≤ known ∧ known ≤ t
  snapshot : r.referenceTime.isSome → cutoff = none

/-- An accepted call computes at the reference time, where there is one. -/
theorem resolve_eq_ok_iff {set : ScheduleSet} :
    (r.resolve context t cutoff {}).1 = .ok set ↔ Accepted r t cutoff ∧
      set = { r.computed (context, r.referenceTime.getD t, cutoff) with eventTime := t } := by
  have hinTime : (cutoff.any fun cutoff => !(0 ≤ cutoff && cutoff ≤ t)) = false ↔
      ∀ known ∈ cutoff, 0 ≤ known ∧ known ≤ t := by
    cases cutoff <;> simp
  unfold ScheduleResolver.resolve
  split
  next hneg =>
    refine iff_of_false (by simp) fun h => ?_
    have hnonneg := h.1.nonneg
    omega
  next hneg =>
    split
    next hlate =>
      refine iff_of_false (by simp) fun h => ?_
      rw [hinTime.mpr h.1.inTime] at hlate
      cases hlate
    next hcutoff =>
      rw [Bool.not_eq_true, hinTime] at hcutoff
      cases href : r.referenceTime with
      | none =>
        simp only [Except.ok.injEq, select_fst valid_fresh, Option.getD_none]
        constructor
        · rintro rfl
          exact ⟨⟨Int.not_lt.mp hneg, hcutoff, by simp [href]⟩, rfl⟩
        · rintro ⟨_, rfl⟩
          rfl
      | some reference =>
        cases cutoff with
        | some known =>
          refine iff_of_false (by simp) fun h => ?_
          exact absurd (h.1.snapshot (by simp [href])) (by simp)
        | none =>
          simp only [Option.isSome_none, Bool.false_eq_true, if_false, Except.ok.injEq,
            select_fst valid_fresh, Option.getD_some]
          constructor
          · rintro rfl
            exact ⟨⟨Int.not_lt.mp hneg, hcutoff, fun _ => rfl⟩, rfl⟩
          · rintro ⟨_, rfl⟩
            rfl

end Memo

/-! ## Resolution -/

/-- The same choices for the platform, the builder and the account. -/
structure SameSchedules (set set' : ScheduleSet) : Prop where
  platform : set'.platform = set.platform
  builder : set'.builder = set.builder
  account : set'.account = set.account

section Resolution

variable {ids : Digests} {r : ScheduleResolver ids} {context : Context} {t t' : Int}
  {cutoff : Option Int}

/-- Up to its boundary what is computed stays. -/
theorem sameSchedules_computed (hle : t ≤ t')
    (hbefore : ∀ b ∈ (r.computed (context, t, cutoff)).nextBoundary, t' < b) :
    SameSchedules (r.computed (context, t, cutoff)) (r.computed (context, t', cutoff)) := by
  simp only [ScheduleResolver.computed, ScheduleResolver.compute] at hbefore ⊢
  generalize ScheduleResolver.candidates _ context cutoff = pool at hbefore ⊢
  have hactive : ∀ s ∈ pool, s.isActive r.referenceTime t' = s.isActive r.referenceTime t :=
    fun s hs => (isActive_eq_of_no_boundary hle fun _ hb => lt_of_lt_boundary hbefore hs hb).symm
  have hseries : ∀ s ∈ pool.filter (·.scope.rank = 2),
      s.isActive r.referenceTime t' = s.isActive r.referenceTime t :=
    fun s hs => hactive s (List.mem_of_mem_filter hs)
  exact ⟨by simp only [choose_congr _ hactive, choose_congr _ hseries],
    choose_congr _ hactive, choose_congr _ hactive⟩

theorem resolve_stable {set : ScheduleSet} (h : (r.resolve context t cutoff {}).1 = .ok set)
    (hle : t ≤ t') (hbefore : ∀ b ∈ set.nextBoundary, t' < b) :
    ∃ set', (r.resolve context t' cutoff {}).1 = .ok set' ∧ SameSchedules set set' := by
  obtain ⟨haccepted, rfl⟩ := resolve_eq_ok_iff.mp h
  have haccepted' : Accepted r t' cutoff :=
    ⟨haccepted.nonneg.trans hle,
      fun known hknown => ⟨(haccepted.inTime known hknown).1,
        (haccepted.inTime known hknown).2.trans hle⟩,
      haccepted.snapshot⟩
  refine ⟨_, resolve_eq_ok_iff.mpr ⟨haccepted', rfl⟩, ?_⟩
  cases href : r.referenceTime with
  | some reference => exact ⟨rfl, rfl, rfl⟩
  | none =>
    simp only [href, Option.getD_none] at hbefore ⊢
    have hsame := sameSchedules_computed hle hbefore
    exact ⟨hsame.platform, hsame.builder, hsame.account⟩

/-- Supplied schedules make one catalog, or one error, in whatever order they come. -/
theorem build_eq_of_perm {supplied supplied' : List CatalogSchedule}
    (h : supplied.Perm supplied') : Catalog.build ids supplied = Catalog.build ids supplied' := by
  by_cases hnodup : (supplied.map ids.schedule).Nodup
  · unfold Catalog.build
    rw [List.sortByKey_eq_of_perm h hnodup]
  · -- an identity occurs twice
    have hunsorted {l : List CatalogSchedule} (hl : l.Perm supplied) :
        ¬((l.sortByKey ids.schedule).map ids.schedule).Pairwise (· < ·) := by
      intro hsorted
      have hperm := ((List.sortByKey_perm ids.schedule l).trans hl).map ids.schedule
      exact hnodup (hperm.nodup_iff.mp (hsorted.imp ne_of_lt))
    have hlength : (supplied.sortByKey ids.schedule).length =
        (supplied'.sortByKey ids.schedule).length := by
      rw [(List.sortByKey_perm _ _).length_eq, (List.sortByKey_perm _ _).length_eq, h.length_eq]
    simp only [Catalog.build, Catalog.make, hunsorted (List.Perm.refl _), hunsorted h.symm, hlength,
      dite_eq_ite, dite_false]

/-- The schedules of a component that apply to a context. -/
def ScheduleResolver.pool (r : ScheduleResolver ids) (context : Context) (cutoff : Option Int)
    (component : Component) : List CatalogSchedule :=
  (r.applying context cutoff).filter (·.component = component)

/-- A resolver's sets depend on the schedules supplied and on the arguments alone, stay up to the
boundary they name, and select what stands. -/
theorem resolution_stable (ids : Digests) :
    (∀ supplied supplied' : List CatalogSchedule, supplied.Perm supplied' →
      Catalog.build ids supplied = Catalog.build ids supplied') ∧
    ∀ (r : ScheduleResolver ids) (context : Context) (t : Int) (cutoff : Option Int),
      (∀ calls, (r.resolve context t cutoff (r.after calls)).1 =
        (r.resolve context t cutoff {}).1) ∧
      ∀ set, (r.resolve context t cutoff {}).1 = .ok set →
        (∀ t', t ≤ t' → (∀ b ∈ set.nextBoundary, t' < b) →
          ∃ set', (r.resolve context t' cutoff {}).1 = .ok set' ∧ SameSchedules set set') ∧
        (∀ s, set.builder.schedule = some s ↔ Selected ids r.referenceTime
          (r.referenceTime.getD t) (r.pool context cutoff .builder) s) ∧
        (∀ s, set.account.schedule = some s ↔ Selected ids r.referenceTime
          (r.referenceTime.getD t) (r.pool context cutoff .account) s) ∧
        (∀ s, set.platform.schedule = some s ↔ Selected ids r.referenceTime
          (r.referenceTime.getD t) (r.pool context cutoff .platform) s ∧
            (s.model.isCleared = true → ∃ base, Selected ids r.referenceTime
              (r.referenceTime.getD t)
              ((r.pool context cutoff .platform).filter (·.scope.rank = 2)) base ∧
                FillsFor base s)) ∧
        -- where no schedule supersedes itself it takes another to supersede it
        ((∀ s ∈ r.catalog.schedules, ids.schedule s ∉ s.supersedes) → ∀ component s,
          Stands ids r.referenceTime (r.referenceTime.getD t) (r.pool context cutoff component) s ↔
            Leads r.referenceTime (r.referenceTime.getD t) (r.pool context cutoff component) s ∧
            ∀ other, Leads r.referenceTime (r.referenceTime.getD t)
              (r.pool context cutoff component) other → other ≠ s →
              ids.schedule s ∉ other.supersedes) := by
  refine ⟨fun _ _ => build_eq_of_perm, fun r context t cutoff => ⟨fun calls => ?_, ?_⟩⟩
  · exact resolve_fst_eq (valid_after r calls) context t cutoff
  intro set h
  refine ⟨fun t' => resolve_stable h, ?_⟩
  obtain ⟨_, rfl⟩ := resolve_eq_ok_iff.mp h
  have hnodup := r.nodup_applying context cutoff
  simp only [ScheduleResolver.computed, ScheduleResolver.compute,
    ScheduleResolver.candidates_scheduleIndex]
  refine ⟨fun s => choose_schedule_iff hnodup .builder, fun s => choose_schedule_iff hnodup .account,
    fun s => ?_, fun hself component s => ?_⟩
  · rw [mergeSeries_schedule_iff (fun _ => model_of_choose) (fun _ => model_of_choose),
      choose_schedule_iff hnodup .platform]
    have hseries : (r.pool context cutoff .platform).filter (·.scope.rank = 2) =
        ((r.applying context cutoff).filter (·.scope.rank = 2)).filter
          (·.component = .platform) := by
      unfold ScheduleResolver.pool
      rw [List.filter_filter, List.filter_filter]
      exact List.filter_congr fun _ _ => Bool.and_comm _ _
    simp only [choose_schedule_iff (hnodup.filter _), hseries]
    rfl
  · constructor
    · intro hstands
      exact ⟨hstands.1, fun other hother _ => hstands.2 other hother⟩
    · rintro ⟨hleads, hothers⟩
      refine ⟨hleads, fun other hother => ?_⟩
      by_cases hsame : other = s
      · rw [hsame]
        exact hself s (List.mem_of_mem_filter (List.mem_of_mem_filter hleads.mem))
      · exact hothers other hother hsame

end Resolution

/-! ## A lone event override -/

theorem override_named : "none" ≠ "" ∧ "usd" ≠ "" := by decide

theorem override_outcome_named : "kalshi" ≠ "" ∧ "m-yes" ≠ "" := by decide

def overrideQuote : Asset := ⟨.usd, "none", "usd", override_named⟩

theorem override_kinds : AssetKind.outcome = .outcome ∧ overrideQuote.kind ≠ .outcome := by decide

theorem override_scales : 6 ≤ 18 ∧ 2 ≤ 18 ∧ 4 ≤ 18 := by decide

theorem override_atoms : 1 ≤ domainBound := by decide

theorem override_scale : 0 ≤ 18 := by decide

/-- One unit. -/
def overrideUnit : Fixed := ⟨1, 0, override_scale, override_atoms⟩

theorem override_positive : 0 < overrideUnit.value := by norm_num [Fixed.value, overrideUnit]

def overrideEconomics : InstrumentEconomics where
  quote := overrideQuote
  outcome := ⟨.outcome, "kalshi", "m-yes", override_outcome_named⟩
  payout := ⟨overrideQuote, overrideUnit⟩
  quoteScale := 6
  quantityScale := 2
  priceScale := 4
  kinds := override_kinds
  positive := override_positive
  scales := override_scales

theorem override_explicit : "m" ≠ "" ∧ "m-yes" ≠ "" ∧ "yes" ≠ "" ∧ "a" ≠ "" ∧ "0" ≠ "" := by decide

def overrideContext : Context :=
  ⟨.kalshi, .clob, "m", some "e", none, none, "m-yes", "yes", "a", "0", .nonDirect, .absent,
    override_explicit⟩

def overrideScope : Scope := { venue := .kalshi, product := .clob, event := some "e" }

theorem override_sourced : [(3 : Int)] ≠ [] := List.cons_ne_nil _ _

theorem override_interval : (0 : Int) ≤ 5 ∧ ∀ stop ∈ (none : Option Int), 5 < stop := by decide

theorem override_rank (model : Model) : model.isCleared = true → overrideScope.rank = 3 :=
  fun _ => rfl

theorem override_feeScale : 6 ≤ 18 := by decide

/-- An event's schedule that leaves the kind to the series. -/
def overrideSchedule : CatalogSchedule where
  component := .platform
  economics := overrideEconomics
  feeAsset := overrideQuote
  feeScale := 6
  feeScale_le := override_feeScale
  scope := overrideScope
  model := .kalshi none (some overrideUnit)
  retrievedAt := [3]
  effectiveFrom := some 5
  effectiveTo := none
  supersedes := []
  sourced := override_sourced
  interval := override_interval
  cleared := override_rank _
  distinct := List.nodup_nil

def overrideIds : Digests := ⟨fun _ => "s", fun _ => "c", fun _ _ => "r"⟩

theorem override_sorted : ([overrideSchedule].map overrideIds.schedule).Pairwise (· < ·) :=
  List.pairwise_singleton _ _

theorem override_bounded : [overrideSchedule].length ≤ 10000 := by decide

theorem override_nonneg : ∀ time ∈ (none : Option Int), 0 ≤ time := by simp

/-- A catalog of the override alone. -/
def overrideResolver : ScheduleResolver overrideIds where
  catalog := ⟨[overrideSchedule], override_sorted, override_bounded⟩
  referenceTime := none
  nonneg := override_nonneg

/-- The override stands alone, and yet no platform schedule is selected. -/
theorem lone_override_not_selected : ∃ set,
    (overrideResolver.resolve overrideContext 7 none {}).1 = .ok set ∧
      Selected overrideIds none 7 (overrideResolver.pool overrideContext none .platform)
        overrideSchedule ∧
      set.platform = .unknown ⟨.platform, .missing, []⟩ := by
  have hpool : overrideResolver.pool overrideContext none .platform = [overrideSchedule] := rfl
  have haccepted : Accepted overrideResolver 7 none := ⟨by decide, by simp, fun _ => rfl⟩
  refine ⟨_, resolve_eq_ok_iff.mpr ⟨haccepted, rfl⟩, ?_, rfl⟩
  have hleads : Leads none 7 [overrideSchedule] overrideSchedule :=
    ⟨List.mem_singleton_self _, rfl, by simp⟩
  have hstands : Stands overrideIds none 7 [overrideSchedule] overrideSchedule := by
    refine ⟨hleads, fun other hother => ?_⟩
    rw [List.mem_singleton.mp hother.mem]
    exact List.not_mem_nil
  rw [hpool]
  refine ⟨hstands, fun other hother => List.mem_singleton.mp hother.1.mem, fun u hu hfrom => ?_⟩
  rw [List.mem_singleton.mp hu] at hfrom
  cases hfrom

end PredictionIndexer.Fees
