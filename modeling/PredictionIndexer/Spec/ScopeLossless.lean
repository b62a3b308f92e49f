import PredictionIndexer.Spec.RiskInvariant

/-!
# The scope filter loses nothing a planned book needs

The walker drops what is outside of the plans' instruments and lanes before a group reaches the
engine. Seen from one planned book, what it drops is no stimulus: a removed record has no effect
on the book (`eventStimuli_eq_nil_of_excluded`), and a delivery on a planned lane is kept as long
as it carries its epoch. So the filtered and the unfiltered group drive every planned book
through the same stimuli, and whole runs commit the same transitions.
-/

namespace PredictionIndexer.Engine

open Fallible

/-! ## Groups before the filter -/

/-- A group as the derivative has it, with every delivery and every child. -/
structure SourceGroup where
  pin : DerivativePin
  first : EventAddress
  last : EventAddress
  visibleNs : Nat
  tie : Option Nat
  deliveries : List SourceDelivery

/-- The delivery with nothing removed. -/
def SourceDelivery.whole (d : SourceDelivery) : FilteredDelivery :=
  ⟨d.header, d.connectionEpoch, d.records, d.disposition⟩

namespace SourceGroup

/-- The group the walker builds under a scope. -/
def filtered (g : SourceGroup) (scope : ScopeFilter) : AtomicGroup :=
  ⟨g.pin, g.first, g.last, g.visibleNs, g.tie, g.deliveries.filterMap scope.delivery⟩

/-- The same group without scope filtering. -/
def whole (g : SourceGroup) : AtomicGroup :=
  ⟨g.pin, g.first, g.last, g.visibleNs, g.tie, g.deliveries.map SourceDelivery.whole⟩

/-- Every source carries its connection epoch (profile 2). -/
def HasEpochs (g : SourceGroup) : Prop := ∀ d ∈ g.deliveries, d.connectionEpoch.isSome

end SourceGroup

/-- What the walker has in hand: a window status, or a group before the filter. -/
inductive SourceItem where
  | windowStatus (status : WindowStatus)
  | group (g : SourceGroup)

namespace SourceItem

def filtered (scope : ScopeFilter) : SourceItem → WalkItem
  | .windowStatus status => .windowStatus status
  | .group g => .group (g.filtered scope)

def whole : SourceItem → WalkItem
  | .windowStatus status => .windowStatus status
  | .group g => .group g.whole

def HasEpochs : SourceItem → Prop
  | .windowStatus _ => True
  | .group g => g.HasEpochs

end SourceItem

/-- Inside the requested interval, the walker's filter keeps what the scope keeps. -/
theorem walkerFilter_delivery {scope : ScopeFilter} {startNs endNs : Nat} {c c' : WalkCounts}
    {d : SourceDelivery} {kept : Option FilteredDelivery}
    (hin : startNs ≤ d.header.visibleNs ∧ d.header.visibleNs < endNs)
    (h : walkerFilter scope startNs endNs c d = .ok (c', kept)) : kept = scope.delivery d := by
  unfold walkerFilter at h
  obtain ⟨n, _, h⟩ := Except.bind_eq_ok.mp h
  obtain ⟨c₁, _, h⟩ := Except.bind_eq_ok.mp h
  have hinside : (decide (d.header.visibleNs < startNs) || decide (endNs ≤ d.header.visibleNs)) =
      false := by
    simp
    omega
  simp only [hinside, Bool.false_eq_true, if_false] at h
  obtain ⟨c₂, _, h⟩ := Except.bind_eq_ok.mp h
  exact (Prod.mk.inj (Except.ok.inj h)).2.symm

/-! ## What the filter removes -/

/-- The scope of a set of plans. -/
structure Scopes (scope : ScopeFilter) (k : BookKey) (plan : BookPlan) : Prop where
  instrument : scope.instruments.contains k.instrument = true
  lane : scope.lanes.contains plan.lane = true
  venue : k.instrument.venue = plan.venue

/-- The engine's own scope covers each of its plans. -/
theorem RiskEngine.scope_scopes {e : RiskEngine} {k : BookKey} {plan : BookPlan}
    (hplan : e.plans[k]? = some plan) (hvenue : k.instrument.venue = plan.venue) :
    Scopes e.scope k plan := by
  have hmem : (k, plan) ∈ e.plans.toList :=
    Std.ExtTreeMap.mem_toList_iff_getElem?_eq_some.mpr hplan
  refine ⟨?_, ?_, hvenue⟩
  · rw [RiskEngine.scope, Std.ExtTreeSet.contains_ofList, List.contains_iff_mem]
    exact List.mem_map.mpr ⟨(k, plan), hmem, rfl⟩
  · rw [RiskEngine.scope, Std.ExtTreeSet.contains_ofList, List.contains_iff_mem]
    exact List.mem_map.mpr ⟨(k, plan), hmem, rfl⟩

section Scoped

variable {scope : ScopeFilter} {k : BookKey} {plan : BookPlan}

/-- A venue-wide fault that reaches the book is in scope. -/
theorem Scopes.any_venue (h : Scopes scope k plan) :
    scope.instruments.toList.any (·.venue == plan.venue) = true := by
  refine List.any_eq_true.mpr ⟨k.instrument, ?_, by simp [h.venue]⟩
  exact Std.ExtTreeSet.mem_toList.mpr (Std.ExtTreeSet.contains_iff_mem.mp h.instrument)

/-- A record that the filter removes on the book's lane is no stimulus for the book. -/
theorem Scopes.eventStimuli_eq_nil_of_excluded (h : Scopes scope k plan) {r : SegmentRecord}
    (hlane : r.header.address.lane = plan.lane) (hout : scope.event r = false)
    (reference : Reference) (epoch : String) :
    plan.eventStimuli k reference epoch r.event = [] := by
  unfold ScopeFilter.event at hout
  cases hevent : r.event with
  | book b =>
    rw [hevent] at hout
    refine if_neg ?_
    rintro rfl
    cases b with
    | full full => cases h.instrument.symm.trans hout
    | delta delta => cases h.instrument.symm.trans hout
  | normalizationFault impact =>
    rw [hevent] at hout
    refine if_neg ?_
    intro hreach
    cases impact with
    | instrument i =>
      obtain rfl : k.instrument = i := by simpa [BookPlan.reached] using hreach
      cases h.instrument.symm.trans hout
    | requestedVenueBooks v =>
      obtain rfl : plan.venue = v := by simpa [BookPlan.reached] using hreach
      cases h.any_venue.symm.trans hout
    | auditCoverageOnly v => cases hreach
    | unattributedLane l => cases hout
  | control c =>
    rw [hevent] at hout
    have hlanes : scope.lanes.contains r.header.address.lane = false := hout
    rw [hlane, h.lane] at hlanes
    cases hlanes
  | auditAnchor instrument => rfl
  | trade t => rfl

/-- Removing the excluded records of a delivery leaves its stimuli as they were. -/
theorem Scopes.flatMap_filter (h : Scopes scope k plan) {records : List SegmentRecord}
    (hlane : ∀ r ∈ records, r.header.address.lane = plan.lane) (pin : DerivativePin)
    (epoch : String) :
    ((records.filter scope.event).flatMap fun r =>
      plan.eventStimuli k (Reference.new pin r.header) epoch r.event) =
    records.flatMap fun r => plan.eventStimuli k (Reference.new pin r.header) epoch r.event := by
  induction records with
  | nil => rfl
  | cons r records ih =>
    have ih := ih fun r' hr' => hlane r' (by simp [hr'])
    cases hkeep : scope.event r with
    | true => simp [hkeep, ih]
    | false =>
      simp [hkeep, ih,
        h.eventStimuli_eq_nil_of_excluded (hlane r (by simp)) hkeep (Reference.new pin r.header)]

/-- What is kept of a delivery has its header and its epoch. -/
theorem ScopeFilter.delivery_eq_some {d : SourceDelivery} {f : FilteredDelivery}
    (h : scope.delivery d = some f) :
    f.header = d.header ∧ f.connectionEpoch = d.connectionEpoch := by
  simp only [ScopeFilter.delivery] at h
  split at h
  · cases h
  · obtain rfl := Option.some.inj h
    exact ⟨rfl, rfl⟩

/-- Whether a delivery is heeded is in its header. -/
theorem BookPlan.heeds_congr (plan : BookPlan) {f d : FilteredDelivery}
    (h : f.header = d.header) : plan.heeds f = plan.heeds d := by
  unfold heeds FilteredDelivery.duplicate FilteredDelivery.lane
  rw [h]

/-- A delivery has the same stimuli for the book before and after the filter. -/
theorem Scopes.deliveryStimuli_eq (h : Scopes scope k plan) {d : SourceDelivery}
    (hepoch : d.connectionEpoch.isSome) (pin : DerivativePin) :
    ((scope.delivery d).elim [] fun f => plan.deliveryStimuli k pin f) =
      plan.deliveryStimuli k pin d.whole := by
  cases hheeds : plan.heeds d.whole with
  | false =>
    rw [BookPlan.deliveryStimuli_of_not_heeds hheeds]
    cases hkept : scope.delivery d with
    | none => rfl
    | some f =>
      -- the header is kept, so what is left is not heeded either
      have hheader := (ScopeFilter.delivery_eq_some hkept).1
      exact BookPlan.deliveryStimuli_of_not_heeds ((plan.heeds_congr hheader).trans hheeds)
  | true =>
    have hlane : d.header.address.lane = plan.lane := by
      have := hheeds
      simp only [BookPlan.heeds, Bool.and_eq_true, decide_eq_true_eq] at this
      exact this.2
    -- a planned lane with an epoch is always kept
    have hkept : scope.delivery d = some ⟨d.header, d.connectionEpoch,
        d.records.filter scope.event, d.disposition.filter (scope.keepDisposition d.header)⟩ := by
      unfold ScopeFilter.delivery
      simp [hepoch, hlane, h.lane]
    have hrecords : ∀ r ∈ d.records, r.header.address.lane = plan.lane := by
      intro r hr
      have hsame := List.all_eq_true.mp d.same r hr
      simp only [sameSource, Bool.and_eq_true, decide_eq_true_eq] at hsame
      rw [← hlane, ← hsame.2]
    rw [hkept, BookPlan.deliveryStimuli_of_heeds hheeds]
    refine Eq.trans (BookPlan.deliveryStimuli_of_heeds ((plan.heeds_congr rfl).trans hheeds)) ?_
    exact congrArg _ (h.flatMap_filter hrecords pin _)

/-- A group has the same stimuli for the book before and after the filter. -/
theorem Scopes.groupStimuli_eq (h : Scopes scope k plan) {g : SourceGroup} (hg : g.HasEpochs) :
    plan.groupStimuli k (g.filtered scope) = plan.groupStimuli k g.whole := by
  have hall : ∀ ds : List SourceDelivery, (∀ d ∈ ds, d.connectionEpoch.isSome) →
      (ds.filterMap scope.delivery).flatMap (plan.deliveryStimuli k g.pin) =
        (ds.map SourceDelivery.whole).flatMap (plan.deliveryStimuli k g.pin) := by
    intro ds
    induction ds with
    | nil => simp
    | cons d ds ih =>
      intro hds
      have hd := h.deliveryStimuli_eq (hds d (by simp)) g.pin
      have ih := ih fun d' hd' => hds d' (by simp [hd'])
      rw [List.map_cons, List.flatMap_cons, ← hd, ← ih]
      cases hkept : scope.delivery d <;> simp [hkept]
  exact hall g.deliveries hg

end Scoped

/-! ## Two engines side by side -/

namespace RiskEngine

/-- Two engines that differ at most in the epochs of lanes without a plan. -/
structure Twin (e₁ e₂ : RiskEngine) : Prop where
  rest : e₂ = { e₁ with epochs := e₂.epochs }
  epochs : ∀ (k : BookKey) (plan : BookPlan), e₁.plans[k]? = some plan →
    e₁.epochs[plan.lane]? = e₂.epochs[plan.lane]?

/-- The same error, or the same transitions and engines that are twins again. -/
def SameCut : Except Halt (RiskEngine × RiskCut) → Except Halt (RiskEngine × RiskCut) → Prop
  | .ok (e₁, cut₁), .ok (e₂, cut₂) => Twin e₁ e₂ ∧ cut₁.bookTransitions = cut₂.bookTransitions
  | .error h₁, .error h₂ => h₁ = h₂
  | _, _ => False

variable {e₁ e₂ : RiskEngine}

/-- Twins commit the same work alike; what they report beside it does not matter. -/
theorem Twin.commit_same (h : Twin e₁ e₂) (origin : CutOrigin)
    (events₁ events₂ : List MarketRecord) (controls₁ controls₂ : List ControlRecord)
    (staged : Staged) :
    SameCut (e₁.commit origin events₁ controls₁ staged)
      (e₂.commit origin events₂ controls₂ staged) := by
  have hbooks : e₂.books = e₁.books := by rw [h.rest]
  have hsequence : e₂.sequence = e₁.sequence := by rw [h.rest]
  unfold commit
  rw [hbooks, hsequence]
  cases okOr (checkedAdd e₁.sequence 1) "cut sequence overflow" with
  | error halt => exact rfl
  | ok sequence =>
    simp only [Except.ok_bind]
    cases staged.toList.mapM (commitWork origin e₁.books) with
    | error halt => exact rfl
    | ok transitions =>
      refine ⟨⟨?_, h.epochs⟩, rfl⟩
      rw [h.rest]

theorem Twin.window_same (h : Twin e₁ e₂) (status : WindowStatus) :
    SameCut (e₁.window status) (e₂.window status) := by
  have hplans : e₂.plans = e₁.plans := by rw [h.rest]
  have hbooks : e₂.books = e₁.books := by rw [h.rest]
  unfold window
  rw [hplans, hbooks]
  cases okOr status.coverage "missing source evidence" with
  | error halt => exact rfl
  | ok c =>
    simp only [Except.ok_bind]
    cases e₁.plans.toList.foldlM (stageBlocked e₁.books
        ((e₁.plans.toList.map (·.2)).foldl (block c) ∅)) ∅ with
    | error halt => exact rfl
    | ok staged =>
      refine Twin.commit_same ⟨?_, ?_⟩ _ _ _ _ _ _
      · rw [h.rest]
      · exact h.epochs

/-- The machines of twins are the same. -/
theorem Twin.bookRun_eq (h : Twin e₁ e₂) (plan : BookPlan) (view : BookView)
    (stimuli : List Stimulus) (s : BookState) :
    bookRun e₂ plan view stimuli s = bookRun e₁ plan view stimuli s := by
  have hact : Stimulus.act e₂ plan view = Stimulus.act e₁ plan view := by
    funext s stimulus
    rw [h.rest]
    cases stimulus <;> rfl
  rw [bookRun, bookRun, hact]

/-- Where every source has its epoch, the delivery loop ends with the end of every machine's
    run, or some machine stopped at the level limit. -/
theorem loop_cases {e : RiskEngine} (hok : e.Ok) {g : AtomicGroup}
    (hg : ∀ d ∈ g.deliveries, d.connectionEpoch.isSome) :
    (∃ s, g.deliveries.foldlM (e.deliver g.pin) ⟨e.epochs, ∅, [], []⟩ = .ok s ∧
      (∀ k ∈ s.staged, k ∈ e.plans) ∧
      ∀ k plan view, e.plans[k]? = some plan → e.books[k]? = some view →
        bookRun e plan view (plan.groupStimuli k g) ⟨e.epochs[plan.lane]?, none⟩ =
          .ok (s.book k plan)) ∨
    (g.deliveries.foldlM (e.deliver g.pin) ⟨e.epochs, ∅, [], []⟩ =
        .error (.err "risk level limit exceeded") ∧
      ∃ k plan view halt, e.plans[k]? = some plan ∧ e.books[k]? = some view ∧
        bookRun e plan view (plan.groupStimuli k g) ⟨e.epochs[plan.lane]?, none⟩ =
          .error halt) := by
  have hloop := group_follows hok.closed g
  cases hx : g.deliveries.foldlM (e.deliver g.pin) ⟨e.epochs, ∅, [], []⟩ with
  | ok s =>
    left
    obtain ⟨hdom, hruns⟩ := hloop.of_ok hx
    refine ⟨s, rfl, hdom, ?_⟩
    intro k plan view hplan hview
    simpa [GroupState.book] using hruns k plan view hplan hview
  | error halt =>
    right
    rcases hloop.of_error hx with ⟨⟨d, hd, hnone⟩, -⟩ | ⟨k, plan, view, hplan, hview, herr⟩
    · have hsome := hg d hd
      rw [hnone] at hsome
      cases hsome
    · have herr : bookRun e plan view (plan.groupStimuli k g) ⟨e.epochs[plan.lane]?, none⟩ =
          .error halt := by
        simpa [GroupState.book] using herr
      have hstart : StateOk e.limits plan view ⟨e.epochs[plan.lane]?, none⟩ :=
        ⟨WorkOk.new (hok.view k plan view hplan hview), by simp⟩
      have hlimit : LimitHalt halt := (groupRun_ok g hstart).of_error herr
      exact ⟨congrArg _ hlimit, k, plan, view, halt, hplan, hview, herr⟩

theorem Twin.ok (h : Twin e₁ e₂) (hok : e₁.Ok) : e₂.Ok := by
  refine ⟨?_, ?_⟩
  · rw [h.rest]
    exact hok.closed
  · intro k plan view hplan hview
    have hplan₁ : e₁.plans[k]? = some plan := by
      rw [h.rest] at hplan
      exact hplan
    rw [← h.epochs k plan hplan₁]
    rw [h.rest] at hview ⊢
    exact hok.view k plan view hplan₁ hview

theorem SourceGroup.HasEpochs.filtered {g : SourceGroup} (hg : g.HasEpochs)
    (scope : ScopeFilter) : ∀ d ∈ (g.filtered scope).deliveries, d.connectionEpoch.isSome := by
  intro f hf
  obtain ⟨d, hd, hkept⟩ := List.mem_filterMap.mp hf
  rw [(ScopeFilter.delivery_eq_some hkept).2]
  exact hg d hd

theorem SourceGroup.HasEpochs.whole {g : SourceGroup} (hg : g.HasEpochs) :
    ∀ d ∈ g.whole.deliveries, d.connectionEpoch.isSome := by
  intro f hf
  obtain ⟨d, hd, rfl⟩ := List.mem_map.mp hf
  exact hg d hd

/-- One group, filtered and whole. -/
theorem Twin.group_same (h : Twin e₁ e₂) (hok : e₁.Ok) {scope : ScopeFilter}
    (hscope : ∀ k plan, e₁.plans[k]? = some plan → Scopes scope k plan) {g : SourceGroup}
    (hg : g.HasEpochs) : SameCut (e₁.group (g.filtered scope)) (e₂.group g.whole) := by
  have hplans : e₂.plans = e₁.plans := by rw [h.rest]
  have hbooks : e₂.books = e₁.books := by rw [h.rest]
  -- every machine makes the same run in both groups
  have hrun : ∀ (k : BookKey) (plan : BookPlan) (view : BookView), e₁.plans[k]? = some plan →
      bookRun e₂ plan view (plan.groupStimuli k g.whole) ⟨e₂.epochs[plan.lane]?, none⟩ =
        bookRun e₁ plan view (plan.groupStimuli k (g.filtered scope))
          ⟨e₁.epochs[plan.lane]?, none⟩ := by
    intro k plan view hplan
    rw [h.bookRun_eq, (hscope k plan hplan).groupStimuli_eq hg, h.epochs k plan hplan]
  unfold group
  rcases loop_cases hok (SourceGroup.HasEpochs.filtered hg scope) with
    ⟨s₁, hx₁, hdom₁, hruns₁⟩ | ⟨hx₁, k, plan, view, halt, hplan, hview, herr⟩
  · rcases loop_cases (h.ok hok) (SourceGroup.HasEpochs.whole hg) with
      ⟨s₂, hx₂, hdom₂, hruns₂⟩ | ⟨hx₂, k, plan, view, halt, hplan, hview, herr⟩
    · -- both loops end: the books agree key by key
      have hbook : ∀ (k : BookKey) (plan : BookPlan), e₁.plans[k]? = some plan →
          s₁.book k plan = s₂.book k plan := by
        intro k plan hplan
        obtain ⟨view, hview⟩ := hok.closed.exists_view hplan
        have hend₁ := hruns₁ k plan view hplan hview
        have hend₂ := hruns₂ k plan view (hplans ▸ hplan) (hbooks ▸ hview)
        rw [hrun k plan view hplan, hend₁] at hend₂
        exact Except.ok.inj hend₂
      have hstaged : s₁.staged = s₂.staged := by
        refine Std.ExtTreeMap.ext_getElem? ?_
        intro k
        cases hk : e₁.plans[k]? with
        | some plan => exact congrArg BookState.staged (hbook k plan hk)
        | none =>
          have hout₁ : k ∉ s₁.staged := by
            intro hmem
            have hin := hdom₁ k hmem
            rw [Std.ExtTreeMap.mem_iff_isSome_getElem?, hk] at hin
            cases hin
          have hout₂ : k ∉ s₂.staged := by
            intro hmem
            have hin := hdom₂ k hmem
            rw [hplans, Std.ExtTreeMap.mem_iff_isSome_getElem?, hk] at hin
            cases hin
          rw [Std.ExtTreeMap.getElem?_eq_none hout₁, Std.ExtTreeMap.getElem?_eq_none hout₂]
      rw [hx₁, hx₂, Except.ok_bind, Except.ok_bind, hstaged]
      refine Twin.commit_same ⟨?_, ?_⟩ _ _ _ _ _ _
      · rw [h.rest]
      · intro k plan hplan
        exact congrArg BookState.epoch (hbook k plan hplan)
    · exfalso
      rw [hplans] at hplan
      rw [hbooks] at hview
      rw [hrun k plan view hplan, hruns₁ k plan view hplan hview] at herr
      cases herr
  · rcases loop_cases (h.ok hok) (SourceGroup.HasEpochs.whole hg) with
      ⟨s₂, hx₂, hdom₂, hruns₂⟩ | ⟨hx₂, _⟩
    · exfalso
      have hend₂ := hruns₂ k plan view (hplans ▸ hplan) (hbooks ▸ hview)
      rw [hrun k plan view hplan, herr] at hend₂
      cases hend₂
    · rw [hx₁, hx₂]
      exact rfl

/-! ## Whole runs -/

/-- The book transitions of a run, cut by cut. -/
def transitionsOf (run : Except Halt (RiskEngine × List RiskCut)) :
    Except Halt (List (List BookTransition)) :=
  run.map fun r => r.2.map RiskCut.bookTransitions

theorem transitionsOf_run_cons (e : RiskEngine) (item : WalkItem) (items : List WalkItem) :
    transitionsOf (e.run (item :: items)) =
      e.nextInner item >>= fun r =>
        (transitionsOf (r.1.run items)).map (r.2.bookTransitions :: ·) := by
  rw [run]
  cases e.nextInner item with
  | error halt => rfl
  | ok r =>
    cases hrest : r.1.run items with
    | error halt => simp [hrest, transitionsOf, Except.map]
    | ok r' => simp [hrest, transitionsOf, Except.map]

/-- One item, filtered and whole. -/
theorem Twin.nextInner_same (h : Twin e₁ e₂) (hok : e₁.Ok) {scope : ScopeFilter}
    (hscope : ∀ k plan, e₁.plans[k]? = some plan → Scopes scope k plan) {item : SourceItem}
    (hitem : item.HasEpochs) :
    SameCut (e₁.nextInner (item.filtered scope)) (e₂.nextInner item.whole) := by
  cases item with
  | windowStatus status => exact h.window_same status
  | group g => exact h.group_same hok hscope hitem

/-- Twins commit the same transitions over whole runs, filtered and whole. -/
theorem Twin.run_same (h : Twin e₁ e₂) (hok : e₁.Ok) {scope : ScopeFilter}
    (hscope : ∀ k plan, e₁.plans[k]? = some plan → Scopes scope k plan)
    {items : List SourceItem} (hitems : ∀ item ∈ items, item.HasEpochs) :
    transitionsOf (e₁.run (items.map (SourceItem.filtered scope))) =
      transitionsOf (e₂.run (items.map SourceItem.whole)) := by
  induction items generalizing e₁ e₂ with
  | nil => rfl
  | cons item items ih =>
    have hstep := h.nextInner_same hok hscope (hitems item (by simp))
    rw [List.map_cons, List.map_cons, transitionsOf_run_cons, transitionsOf_run_cons]
    cases hx₁ : e₁.nextInner (item.filtered scope) with
    | error halt₁ =>
      cases hx₂ : e₂.nextInner item.whole with
      | error halt₂ =>
        rw [hx₁, hx₂] at hstep
        exact congrArg _ hstep
      | ok r₂ =>
        rw [hx₁, hx₂] at hstep
        exact hstep.elim
    | ok r₁ =>
      cases hx₂ : e₂.nextInner item.whole with
      | error halt₂ =>
        rw [hx₁, hx₂] at hstep
        exact hstep.elim
      | ok r₂ =>
        rw [hx₁, hx₂] at hstep
        obtain ⟨htwin, hcut⟩ := hstep
        have hok₁ : r₁.1.Ok := (nextInner_ok hok _).of_ok hx₁
        have hplans : r₁.1.plans = e₁.plans := nextInner_plans hok.closed hx₁
        have hrest := ih htwin hok₁ (by rw [hplans]; exact hscope)
          fun item' hmem => hitems item' (by simp [hmem])
        simp only [Except.ok_bind, hrest, hcut]

/-- The cut of a run at some place is the cut of the item at that place. -/
theorem run_cut {e e' : RiskEngine} {items : List WalkItem} {cuts : List RiskCut} {i : Nat}
    {item : WalkItem} (h : e.run items = .ok (e', cuts)) (hi : items[i]? = some item) :
    ∃ (e₁ e₂ : RiskEngine) (cut : RiskCut),
      cuts[i]? = some cut ∧ e₁.nextInner item = .ok (e₂, cut) := by
  induction items generalizing e cuts i with
  | nil => simp at hi
  | cons item₀ items ih =>
    obtain ⟨⟨e₁, cut₁⟩, hitem, h⟩ := Except.bind_eq_ok.mp h
    obtain ⟨⟨e₂, cuts₂⟩, hrun, h⟩ := Except.bind_eq_ok.mp h
    obtain ⟨rfl, rfl⟩ := Prod.mk.inj (Except.ok.inj h)
    cases i with
    | zero =>
      obtain rfl := Option.some.inj hi
      exact ⟨e, e₁, cut₁, rfl, hitem⟩
    | succ i =>
      rw [List.getElem?_cons_succ] at hi ⊢
      exact ih hrun hi

/-- A group without deliveries moves no book. -/
theorem group_nil {e e' : RiskEngine} {g : AtomicGroup} {cut : RiskCut} (hg : g.deliveries = [])
    (h : e.group g = .ok (e', cut)) : cut.bookTransitions = [] := by
  obtain ⟨s, hloop, hcommit⟩ := Except.bind_eq_ok.mp h
  rw [hg] at hloop
  obtain rfl := Except.ok.inj hloop
  have hspec := (commit_meets _ _ _ _).of_ok hcommit
  have hkeys := hspec.keys
  have hnil : (∅ : Staged).toList = [] := by
    rw [← List.isEmpty_iff, Std.ExtTreeMap.isEmpty_toList]
    rfl
  rw [hnil, List.map_nil, List.map_eq_nil_iff] at hkeys
  exact hkeys

/-- Running every group through the walker's scope filter commits, cut by cut, the transitions
    of the unfiltered run, or stops with the same error; and a group of which the filter leaves
    nothing has no transition in either run. -/
theorem scope_filter_lossless {plans : List BookPlan} {limits : RiskLimits} {e : RiskEngine}
    (h : openPlans plans limits = .ok e) {items : List SourceItem}
    (hitems : ∀ item ∈ items, item.HasEpochs) :
    transitionsOf (e.run (items.map (SourceItem.filtered e.scope))) =
      transitionsOf (e.run (items.map SourceItem.whole)) ∧
    ∀ (i : Nat) (g : SourceGroup), items[i]? = some (.group g) → (g.filtered e.scope).deliveries = [] →
      (∀ e' cuts, e.run (items.map (SourceItem.filtered e.scope)) = .ok (e', cuts) →
        cuts[i]?.map RiskCut.bookTransitions = some []) ∧
      ∀ e' cuts, e.run (items.map SourceItem.whole) = .ok (e', cuts) →
        cuts[i]?.map RiskCut.bookTransitions = some [] := by
  have hspec := openPlans_spec h
  have hsame : transitionsOf (e.run (items.map (SourceItem.filtered e.scope))) =
      transitionsOf (e.run (items.map SourceItem.whole)) := by
    refine Twin.run_same ⟨rfl, fun _ _ _ => rfl⟩ hspec.ok ?_ hitems
    intro k plan hplan
    exact scope_scopes hplan (hspec.plans k plan hplan).2
  refine ⟨hsame, ?_⟩
  intro i g hi hempty
  have hfiltered : ∀ e' cuts, e.run (items.map (SourceItem.filtered e.scope)) = .ok (e', cuts) →
      cuts[i]?.map RiskCut.bookTransitions = some [] := by
    intro e' cuts hrun
    have hi' : (items.map (SourceItem.filtered e.scope))[i]? =
        some (.group (g.filtered e.scope)) := by
      simp [hi, SourceItem.filtered]
    obtain ⟨e₁, e₂, cut, hcut, hgroup⟩ := run_cut hrun hi'
    rw [hcut, Option.map_some, group_nil hempty hgroup]
  refine ⟨hfiltered, ?_⟩
  intro e' cuts hrun
  -- the filtered run is accepted too, with the same transitions at this place
  rw [hrun] at hsame
  cases hrun₁ : e.run (items.map (SourceItem.filtered e.scope)) with
  | error halt =>
    rw [hrun₁] at hsame
    cases hsame
  | ok r =>
    rw [hrun₁] at hsame
    have hlists : r.2.map RiskCut.bookTransitions = cuts.map RiskCut.bookTransitions :=
      Except.ok.inj hsame
    have hat := hfiltered r.1 r.2 hrun₁
    rw [← List.getElem?_map, hlists, List.getElem?_map] at hat
    exact hat

/-- A delivery of the sample lane, and one of a lane and an instrument without a plan. -/
def sampleSources : List SourceDelivery :=
  let other : LaneId := ⟨"limitless", by decide +kernel⟩
  let elsewhere : EventHeader :=
    ⟨10, 10, none, ⟨2, other, 0, 0, by decide⟩, .continuous, sampleClock⟩
  [⟨sampleHeader .continuous, some "a", [⟨sampleHeader .continuous, .book (.full sampleFull)⟩],
      none, by decide⟩,
    ⟨elsewhere, some "b",
      [⟨elsewhere, .auditAnchor ⟨"limitless:X", by decide +kernel, by decide +kernel⟩⟩], none,
      by decide⟩]

/-- The sample's scope drops the second delivery, and the runs agree. -/
theorem scope_filter_lossless_sample :
    ∃ e, openPlans [samplePlan] .default = .ok e ∧
      (sampleSources.map e.scope.delivery).map Option.isSome = [true, false] ∧
      transitionsOf (e.run ([SourceItem.group ⟨⟨"derivative", "receipt"⟩,
          (sampleHeader .continuous).address, (sampleHeader .continuous).address, 10, none,
          sampleSources⟩].map (SourceItem.filtered e.scope))) =
        transitionsOf (e.run ([SourceItem.group ⟨⟨"derivative", "receipt"⟩,
          (sampleHeader .continuous).address, (sampleHeader .continuous).address, 10, none,
          sampleSources⟩].map SourceItem.whole)) := by
  have hopen : (openPlans [samplePlan] .default).toOption.any (fun e =>
      (sampleSources.map e.scope.delivery).map Option.isSome = [true, false]) = true := by
    decide +kernel
  cases he : openPlans [samplePlan] .default with
  | error halt =>
    rw [he] at hopen
    cases hopen
  | ok e =>
    rw [he] at hopen
    refine ⟨e, rfl, of_decide_eq_true hopen, ?_⟩
    refine (scope_filter_lossless he ?_).1
    intro item hitem
    obtain rfl := List.mem_singleton.mp hitem
    intro d hd
    have hall : sampleSources.all (·.connectionEpoch.isSome) = true := by decide
    exact List.all_eq_true.mp hall d hd

end RiskEngine

end PredictionIndexer.Engine
