import PredictionIndexer.Spec.RiskInvariant

/-!
# Blocked lanes and latched failures

A book never becomes usable on its own: a lane that a window status blocks keeps its books
unusable until the next window status, and a book that is not usable needs a Full of its own,
under its lane's epoch, in a group without any latching cause for it.

Both are read off the machine of one book. On a blocked lane every stimulus leaves the work
unusable (`act_unusable`). Latched work stays latched (`act_latched`), so a group that ends
usable had no latching stimulus, and the dependency it ends with was set by a Full
(`act_anchored`).
-/

namespace PredictionIndexer.Engine

open Fallible

/-! ## The machine of one book -/

section Machine

variable {e : RiskEngine} {plan : BookPlan} {view : BookView} {s s' : BookState}
  {stimulus : Stimulus}

/-- The work of a book is unusable. -/
def BookState.Unusable (view : BookView) (s : BookState) : Prop :=
  ∃ reason, (s.work view).view.validity = .unusable reason

theorem BookState.Unusable.fail (h : s.Unusable view) (reason : Reason) (latch : Bool) :
    (s.fail view reason latch).Unusable view := by
  unfold BookState.Unusable BookState.fail BookState.work Work.fail
  simp only [Option.getD_some]
  split
  · exact h
  · exact ⟨reason, rfl⟩

/-- On a blocked lane, unusable work stays unusable whatever happens. -/
theorem act_unusable {reason : Reason} (hb : e.blocked[plan.lane]? = some reason)
    (h : s.Unusable view) (hact : Stimulus.act e plan view s stimulus = .ok s') :
    s'.Unusable view := by
  cases stimulus with
  | source verdict epoch =>
    obtain rfl := Except.ok.inj hact
    -- the epoch is no part of the work; each of the two failures keeps it unusable
    have h₁ : (if s.epoch.any (· ≠ epoch) then s.fail view .epochChanged false else s).Unusable
        view := by
      split
      · exact h.fail _ _
      · exact h
    show (if verdict.broken = true then _ else _ : BookState).Unusable view
    split
    · exact h₁.fail _ _
    · exact h₁
  | invalidate reason latch =>
    obtain rfl := Except.ok.inj hact
    exact h.fail _ _
  | book b reference epoch =>
    obtain ⟨w, hw, hact⟩ := Except.bind_eq_ok.mp hact
    obtain rfl := Except.ok.inj hact
    rcases RiskEngine.bookWork_cases hw with ⟨_, rfl⟩ | ⟨hl, r, rfl, _⟩ | ⟨_, hnone, _⟩
    · exact h
    · exact ⟨r, by simp [BookState.work, Work.fail] at hl ⊢; simp [hl]⟩
    · rw [hb] at hnone
      cases hnone

/-- Failed work is latched if it was, or if the failure latches. -/
theorem Work.fail_latched {w : Work} {reason : Reason} {latch : Bool}
    (h : w.latched = true ∨ latch = true) : (w.fail reason latch).latched = true := by
  unfold Work.fail
  cases hl : w.latched with
  | true => simpa using hl
  | false =>
    rcases h with h | h
    · rw [hl] at h
      cases h
    · simpa using h

/-- The stimuli after which the work of a book is latched. -/
def Stimulus.Latches (plan : BookPlan) (view : BookView) (s : BookState) : Stimulus → Prop
  | .source verdict _ => verdict.broken = true
  | .invalidate _ latch => latch = true
  | .book b reference epoch =>
    ∃ reason, apply (s.work view).view plan b reference epoch = .ok (.error reason)

/-- Latched work stays latched, and a latching stimulus latches it. -/
theorem act_latched (h : (s.work view).latched = true ∨ stimulus.Latches plan view s)
    (hact : Stimulus.act e plan view s stimulus = .ok s') : (s'.work view).latched = true := by
  cases stimulus with
  | source verdict epoch =>
    obtain rfl := Except.ok.inj hact
    show ((if verdict.broken = true then _ else _ : BookState).work view).latched = true
    have h₁ : (s.work view).latched = true →
        ((if s.epoch.any (· ≠ epoch) then s.fail view .epochChanged false
          else s).work view).latched = true := by
      intro hl
      split
      · exact Work.fail_latched (.inl hl)
      · exact hl
    split
    · exact Work.fail_latched (.inr rfl)
    · rename_i hbroken
      exact h₁ (h.resolve_right hbroken)
  | invalidate reason latch =>
    obtain rfl := Except.ok.inj hact
    exact Work.fail_latched h
  | book b reference epoch =>
    obtain ⟨w, hw, hact⟩ := Except.bind_eq_ok.mp hact
    obtain rfl := Except.ok.inj hact
    show w.latched = true
    rcases RiskEngine.bookWork_cases hw with ⟨hl, rfl⟩ | ⟨_, r, rfl, _⟩ | ⟨hl, _, v, hv, rfl⟩
    · exact hl
    · exact Work.fail_latched (.inr rfl)
    · -- an applied event: neither latched before nor refused
      rcases h with h | ⟨reason, hr⟩
      · rw [hl] at h
        cases h
      · rw [hv] at hr
        cases hr

/-- A run past a latching stimulus ends with latched work. -/
theorem bookRun_latched {before after : List Stimulus} {mid last : BookState}
    (hmid : bookRun e plan view before s = .ok mid) (h : stimulus.Latches plan view mid)
    (hrun : bookRun e plan view (before ++ stimulus :: after) s = .ok last) :
    (last.work view).latched = true := by
  obtain ⟨mid', hmid', hrest⟩ := List.foldlM_append_eq_ok.mp hrun
  obtain rfl : mid = mid' := Except.ok.inj (hmid.symm.trans hmid')
  obtain ⟨next, hact, hrest⟩ := List.foldlM_cons_eq_ok.mp hrest
  refine List.foldlM_inv (fun t => (t.work view).latched = true) hrest
    (act_latched (.inr h) hact) ?_
  intro t st t' _ ht hstep
  exact act_latched (.inl ht) hstep

theorem Work.dependency_of_fail {w : Work} {reason : Reason} {latch : Bool} {d : Dependency}
    (h : (w.fail reason latch).view.dependency = some d) : w.view.dependency = some d := by
  unfold Work.fail at h
  split at h
  · exact h
  · cases h

/-- An applied event sets the dependency (a Full) or moves it along (a Delta). -/
theorem apply_dependency {v v' : BookView} {b : BookEvent} {reference : Reference}
    {epoch : String} {d : Dependency} (h : apply v plan b reference epoch = .ok (.ok v'))
    (hd : v'.dependency = some d) :
    (∃ full, b = .full full ∧ d.epoch = epoch) ∨
      ∃ d₀, v.dependency = some d₀ ∧ d₀.epoch = d.epoch := by
  cases b with
  | full full =>
    left
    obtain ⟨bids, asks, _, _, rfl⟩ := applyFull_eq_ok (Except.ok.inj h)
    obtain rfl := Option.some.inj hd
    exact ⟨full, rfl, rfl⟩
  | delta delta =>
    right
    obtain ⟨_, _, _, d₀, _, _, hd₀, _, rfl⟩ := applyDelta_eq_ok h
    obtain rfl := Option.some.inj hd
    exact ⟨d₀, hd₀, rfl⟩

/-- The dependency of the work, if any, was set by a Full among the stimuli so far. -/
def Anchored (view : BookView) (done : List Stimulus) (s : BookState) : Prop :=
  ∀ d, (s.work view).view.dependency = some d →
    ∃ full reference, Stimulus.book (.full full) reference d.epoch ∈ done

theorem act_anchored {done : List Stimulus} (h : Anchored view done s)
    (hact : Stimulus.act e plan view s stimulus = .ok s') :
    Anchored view (done ++ [stimulus]) s' := by
  -- a dependency that was there before keeps its Full
  suffices ∀ d, (s'.work view).view.dependency = some d →
      (∃ d₀, (s.work view).view.dependency = some d₀ ∧ d₀.epoch = d.epoch) ∨
        ∃ full reference, stimulus = .book (.full full) reference d.epoch by
    intro d hd
    rcases this d hd with ⟨d₀, hd₀, hepoch⟩ | ⟨full, reference, rfl⟩
    · obtain ⟨full, reference, hmem⟩ := h d₀ hd₀
      exact ⟨full, reference, by simp [← hepoch, hmem]⟩
    · exact ⟨full, reference, by simp⟩
  intro d hd
  cases stimulus with
  | source verdict epoch =>
    obtain rfl := Except.ok.inj hact
    left
    refine ⟨d, ?_, rfl⟩
    change ((if verdict.broken = true then _ else _ : BookState).work view).view.dependency =
      some d at hd
    have h₁ : ((if s.epoch.any (· ≠ epoch) then s.fail view .epochChanged false
        else s).work view).view.dependency = some d := by
      split at hd
      · exact Work.dependency_of_fail hd
      · exact hd
    split at h₁
    · exact Work.dependency_of_fail h₁
    · exact h₁
  | invalidate reason latch =>
    obtain rfl := Except.ok.inj hact
    exact .inl ⟨d, Work.dependency_of_fail hd, rfl⟩
  | book b reference epoch =>
    obtain ⟨w, hw, hact⟩ := Except.bind_eq_ok.mp hact
    obtain rfl := Except.ok.inj hact
    change w.view.dependency = some d at hd
    rcases RiskEngine.bookWork_cases hw with ⟨_, rfl⟩ | ⟨_, r, rfl, _⟩ | ⟨_, _, v, hv, rfl⟩
    · exact .inl ⟨d, hd, rfl⟩
    · exact .inl ⟨d, Work.dependency_of_fail hd, rfl⟩
    · have hd' : v.dependency = some d := by
        cases b <;> exact hd
      rcases apply_dependency hv hd' with ⟨full, rfl, rfl⟩ | hold
      · exact .inr ⟨full, reference, rfl⟩
      · exact .inl hold

theorem bookRun_anchored {stimuli : List Stimulus} (h : Anchored view [] s)
    (hrun : bookRun e plan view stimuli s = .ok s') : Anchored view stimuli s' := by
  refine List.foldlM_prefix_inv (Anchored view) hrun h ?_
  intro done stimulus _ t t' _ _ ht hstep
  exact act_anchored ht hstep

end Machine

namespace RiskEngine

variable {e e' : RiskEngine} {k : BookKey} {plan : BookPlan}

def Usable (e : RiskEngine) (k : BookKey) : Prop :=
  ∃ view, e.books[k]? = some view ∧ view.validity = .usable

def Unusable (e : RiskEngine) (k : BookKey) : Prop :=
  ∃ view reason, e.books[k]? = some view ∧ view.validity = .unusable reason

/-! ## Blocked lanes -/

/-- What a window status may report against a lane. -/
def LaneFaulty (c : CoverageEvidence) (lane : LaneId) : Prop :=
  (c.lane lane).expected = false ∨ (c.lane lane).state = .notExpected ∨
    (c.lane lane).state = .missing ∨ (∃ detail, (c.lane lane).state = .invalid detail) ∨
    ∃ f ∈ c.faults, f.lane = lane

/-- A faulty lane is blocked. -/
theorem blockReason_of_faulty {c : CoverageEvidence} {lane : LaneId} (h : LaneFaulty c lane) :
    ∃ reason, blockReason c lane = some reason := by
  unfold blockReason
  cases hfind : c.faults.find? (·.lane = lane) with
  | some f => exact ⟨_, rfl⟩
  | none =>
    unfold laneReason
    cases hexp : (c.lane lane).expected with
    | false => exact ⟨_, rfl⟩
    | true =>
      rcases h with h | h | h | ⟨detail, h⟩ | ⟨f, hf, hlane⟩
      · rw [hexp] at h
        cases h
      · exact ⟨.laneNotExpected, by simp [h]⟩
      · exact ⟨.interval .laneMissing, by simp [h]⟩
      · exact ⟨.interval (.laneInvalid detail), by simp [h]⟩
      · have hnone := List.find?_eq_none.mp hfind f hf
        simp [hlane] at hnone

/-- The books of a lane are out of use, and the engine knows why. -/
structure Blocked (e : RiskEngine) (lane : LaneId) : Prop where
  closed : e.Closed
  blocked : ∃ reason, e.blocked[lane]? = some reason
  unusable : ∀ (k : BookKey) (plan : BookPlan), e.plans[k]? = some plan → plan.lane = lane →
    e.Unusable k

/-- A window status that reports against a planned lane takes its books out of use. -/
theorem window_blocked {status : WindowStatus} {c : CoverageEvidence} {cut : RiskCut}
    (hc : e.Closed) (h : e.window status = .ok (e', cut)) (hcov : status.coverage = some c)
    (hplan : e.plans[k]? = some plan) (hfaulty : LaneFaulty c plan.lane) :
    e'.Blocked plan.lane := by
  obtain ⟨c', staged, hspec⟩ := (window_meets hc status).of_ok h
  obtain rfl : c' = c := by
    have := hspec.coverage
    rw [hcov] at this
    exact (Option.some.inj this).symm
  obtain ⟨reason, hreason⟩ := blockReason_of_faulty hfaulty
  obtain ⟨hplans, -, hblocked, -, -⟩ := hspec.commits.frame
  refine ⟨hspec.commits.closed hc hspec.planned, ⟨reason, ?_⟩, ?_⟩
  · rw [hblocked, ← hreason]
    exact getElem?_blockedBy hplan c'
  · intro k₁ plan₁ hplan₁ hlane
    rw [hplans] at hplan₁
    obtain ⟨view, hview⟩ := hc.exists_view hplan₁
    have hstaged := hspec.staged_eq k₁ plan₁ view hplan₁ hview
    rw [hlane, hreason] at hstaged
    obtain ⟨old, t, _, _, hcommits, hnew⟩ := hspec.commits.books_some hstaged
    refine ⟨t.view, reason, hnew, ?_⟩
    rw [hcommits.view]
    rfl

/-- A group leaves a blocked lane as it was. -/
theorem group_blocked {g : AtomicGroup} {cut : RiskCut} {lane : LaneId} (hb : e.Blocked lane)
    (h : e.group g = .ok (e', cut)) : e'.Blocked lane := by
  obtain ⟨s, hspec⟩ := (group_meets hb.closed g).of_ok h
  obtain ⟨hplans, -, hblocked, -, -⟩ := hspec.commits.frame
  refine ⟨hspec.commits.closed hb.closed hspec.planned, ?_, ?_⟩
  · rw [hblocked]
    exact hb.blocked
  · intro k₁ plan₁ hplan₁ hlane
    rw [hplans] at hplan₁
    obtain ⟨view, reason₀, hview, hv⟩ := hb.unusable k₁ plan₁ hplan₁ hlane
    obtain ⟨reason, hreason⟩ := hb.blocked
    -- the run starts unusable and every stimulus keeps it so
    have hend : (s.book k₁ plan₁).Unusable view := by
      refine List.foldlM_inv (BookState.Unusable view) (hspec.runs k₁ plan₁ view hplan₁ hview)
        ⟨reason₀, hv⟩ ?_
      intro t stimulus t' _ ht hstep
      exact act_unusable (hlane ▸ hreason) ht hstep
    obtain ⟨r, hr⟩ := hend
    obtain ⟨view', hview', hvalid, -, -⟩ := hspec.view_eq plan₁ hview
    exact ⟨view', r, hview', by rw [hvalid, hr]⟩

/-- So do any number of groups. -/
theorem run_groups_blocked {groups : List AtomicGroup} {cuts : List RiskCut} {lane : LaneId}
    (hb : e.Blocked lane) (h : e.run (groups.map .group) = .ok (e', cuts)) :
    e'.Blocked lane := by
  induction groups generalizing e cuts with
  | nil =>
    obtain ⟨rfl, -⟩ := Prod.mk.inj (Except.ok.inj h)
    exact hb
  | cons g groups ih =>
    obtain ⟨⟨e₁, cut⟩, hitem, h⟩ := Except.bind_eq_ok.mp h
    obtain ⟨⟨e₂, cuts'⟩, hrun, h⟩ := Except.bind_eq_ok.mp h
    obtain ⟨rfl, -⟩ := Prod.mk.inj (Except.ok.inj h)
    exact ih (group_blocked hb hitem) hrun

/-! ## Healing -/

/-- The state of the group loop right before a record: after the deliveries `pre`, the source
    half of `d` and the records `done` of it. -/
def beforeRecord (e : RiskEngine) (pin : DerivativePin) (pre : List FilteredDelivery)
    (d : FilteredDelivery) (done : List SegmentRecord) : Except Halt GroupState := do
  let s ← pre.foldlM (e.deliver pin) ⟨e.epochs, ∅, [], []⟩
  let epoch ← okOr d.connectionEpoch "missing source epoch"
  let s ← e.source d epoch s
  done.foldlM (e.record pin d epoch) s

/-- A group that brings a book back: it holds a Full for the book on its authority lane, under
    the epoch the lane ends the group with, and nothing in it that latches a failure. -/
structure Heals (e e' : RiskEngine) (k : BookKey) (plan : BookPlan) (view : BookView)
    (g : AtomicGroup) (cut : RiskCut) : Prop where
  full : ∃ d ∈ g.deliveries, d.lane = plan.lane ∧ d.header.continuity ≠ .duplicate ∧
    d.connectionEpoch.isSome ∧ e'.epochs[plan.lane]? = d.connectionEpoch ∧
    ∃ r ∈ d.records, ∃ full, r.event = .book (.full full) ∧ full.bookKey = k ∧
      ∃ m ∈ cut.marketEvents, m.reference = Reference.new g.pin r.header ∧
        m.event = .book (.full full)
  verdict : ∀ d ∈ g.deliveries, d.lane = plan.lane →
    d.header.continuity ≠ .gapProven ∧ d.header.continuity ≠ .cursorWentBackwards ∧
    d.header.continuity ≠ .localCounterBroken ∧ d.header.continuity ≠ .conflict
  control : ∀ d ∈ g.deliveries, d.lane = plan.lane → d.header.continuity ≠ .duplicate →
    ∀ r ∈ d.records, r.event ≠ .control .connectionClosed ∧ r.event ≠ .control .connectionFailed
  fault : ∀ d ∈ g.deliveries, d.lane = plan.lane → d.header.continuity ≠ .duplicate →
    ∀ r ∈ d.records, ∀ impact, r.event = .normalizationFault impact → plan.reached k impact = false
  applied : ∀ pre d post done r rest b s, g.deliveries = pre ++ d :: post →
    d.records = done ++ r :: rest → d.lane = plan.lane → d.header.continuity ≠ .duplicate →
    r.event = .book b → b.bookKey = k → e.beforeRecord g.pin pre d done = .ok s →
    ∀ reason, apply ((s.book k plan).work view).view plan b (Reference.new g.pin r.header)
      (d.connectionEpoch.getD "") ≠ .ok (.error reason)

theorem heeds_iff {d : FilteredDelivery} :
    plan.heeds d = true ↔ d.header.continuity ≠ .duplicate ∧ d.lane = plan.lane := by
  simp [BookPlan.heeds, FilteredDelivery.duplicate]

/-- A heeded delivery is a stimulus of the group. -/
theorem source_mem_groupStimuli {g : AtomicGroup} {d : FilteredDelivery} (hd : d ∈ g.deliveries)
    (hheeds : plan.heeds d = true) :
    Stimulus.source d.header.continuity (d.connectionEpoch.getD "") ∈ plan.groupStimuli k g := by
  refine List.mem_flatMap.mpr ⟨d, hd, ?_⟩
  simp [BookPlan.deliveryStimuli_of_heeds hheeds]

/-- So is each of its records that the book takes notice of. -/
theorem event_mem_groupStimuli {g : AtomicGroup} {d : FilteredDelivery} {r : SegmentRecord}
    {stimulus : Stimulus} (hd : d ∈ g.deliveries) (hheeds : plan.heeds d = true)
    (hr : r ∈ d.records)
    (hs : stimulus ∈ plan.eventStimuli k (Reference.new g.pin r.header)
      (d.connectionEpoch.getD "") r.event) : stimulus ∈ plan.groupStimuli k g := by
  refine List.mem_flatMap.mpr ⟨d, hd, ?_⟩
  rw [BookPlan.deliveryStimuli_of_heeds hheeds]
  exact List.mem_cons_of_mem _ (List.mem_flatMap.mpr ⟨r, hr, hs⟩)

/-- A Full among the stimuli is a record of a heeded delivery. -/
theorem full_of_mem_groupStimuli {g : AtomicGroup} {b : BookEvent} {reference : Reference}
    {epoch : String} (h : Stimulus.book b reference epoch ∈ plan.groupStimuli k g) :
    ∃ d ∈ g.deliveries, plan.heeds d = true ∧ d.connectionEpoch.getD "" = epoch ∧
      ∃ r ∈ d.records, r.event = .book b ∧ b.bookKey = k := by
  obtain ⟨d, hd, h⟩ := List.mem_flatMap.mp h
  cases hheeds : plan.heeds d with
  | false =>
    rw [BookPlan.deliveryStimuli_of_not_heeds hheeds] at h
    cases h
  | true =>
    rw [BookPlan.deliveryStimuli_of_heeds hheeds] at h
    rcases List.mem_cons.mp h with h | h
    · cases h
    · obtain ⟨r, hr, h⟩ := List.mem_flatMap.mp h
      rcases BookPlan.mem_eventStimuli.mp h with
        ⟨b', hb', hkey, heq⟩ | ⟨_, _, _, heq⟩ | ⟨_, _, _, _, _, heq⟩
      · obtain ⟨rfl, -, rfl⟩ := Stimulus.book.inj heq
        exact ⟨d, hd, hheeds, rfl, r, hr, hb', hkey⟩
      · cases heq
      · cases heq

/-- The stimuli of a book up to a record of a heeded delivery. -/
def stimuliBefore (plan : BookPlan) (k : BookKey) (pin : DerivativePin)
    (pre : List FilteredDelivery) (d : FilteredDelivery) (done : List SegmentRecord) :
    List Stimulus :=
  pre.flatMap (plan.deliveryStimuli k pin) ++
    .source d.header.continuity (d.connectionEpoch.getD "") ::
      done.flatMap fun r => plan.eventStimuli k (Reference.new pin r.header)
        (d.connectionEpoch.getD "") r.event

/-- Right before a record, the machine of a book has made the run of the stimuli before it. -/
theorem beforeRecord_book (hc : e.Closed) {pin : DerivativePin} {pre : List FilteredDelivery}
    {d : FilteredDelivery} {done : List SegmentRecord} {s : GroupState} {view : BookView}
    (hplan : e.plans[k]? = some plan) (hview : e.books[k]? = some view)
    (hheeds : plan.heeds d = true) (h : e.beforeRecord pin pre d done = .ok s) :
    bookRun e plan view (stimuliBefore plan k pin pre d done) ⟨e.epochs[plan.lane]?, none⟩ =
      .ok (s.book k plan) := by
  unfold beforeRecord at h
  obtain ⟨s₁, hpre, h⟩ := Except.bind_eq_ok.mp h
  obtain ⟨epoch, hepoch, h⟩ := Except.bind_eq_ok.mp h
  have hepoch : d.connectionEpoch = some epoch := by simpa using hepoch
  have hloop : Follows e True (fun k plan => pre.flatMap fun d => plan.deliveryStimuli k pin d)
      ⟨e.epochs, ∅, [], []⟩ (pre.foldlM (e.deliver pin) ⟨e.epochs, ∅, [], []⟩) := by
    refine follows_foldlM (by simp) ?_
    intro d _ s hs
    refine (deliver_follows hc hs pin d).mono ?_ fun _ hs' => hs'
    rintro halt (⟨_, rfl⟩ | hrun)
    · exact .inl ⟨trivial, rfl⟩
    · exact .inr hrun
  obtain ⟨hdom₁, hrun₁⟩ := hloop.of_ok hpre
  have hrest : Follows e True
      (fun k plan => (if plan.heeds d then [.source d.header.continuity epoch] else []) ++
        done.flatMap fun r => plan.recordStimuli k pin d epoch r)
      s₁ (e.source d epoch s₁ >>= done.foldlM (e.record pin d epoch)) := by
    refine (source_follows hc hdom₁ d epoch).bind ?_
    intro s₂ hs₂
    exact follows_foldlM hs₂ fun r _ t ht => record_follows hc ht pin d epoch r
  obtain ⟨-, hrun₂⟩ := hrest.of_ok h
  have hstart : bookRun e plan view (pre.flatMap (plan.deliveryStimuli k pin))
      ⟨e.epochs[plan.lane]?, none⟩ = .ok (s₁.book k plan) := by
    simpa [GroupState.book] using hrun₁ k plan view hplan hview
  have hthen := hrun₂ k plan view hplan hview
  simp only [hheeds, if_true, List.singleton_append, BookPlan.recordStimuli] at hthen
  rw [stimuliBefore, bookRun, List.foldlM_append_eq_ok]
  refine ⟨s₁.book k plan, hstart, ?_⟩
  rw [hepoch]
  exact hthen

/-- A book that a group brings into use was not latched at any point of the group. -/
theorem not_latches_of_usable {view : BookView} {stimuli before after : List Stimulus}
    {stimulus : Stimulus} {s mid last : BookState} {limits : RiskLimits}
    (hok : StateOk limits plan view last) (huse : (last.work view).view.validity = .usable)
    (hrun : bookRun e plan view stimuli s = .ok last)
    (hsplit : stimuli = before ++ stimulus :: after)
    (hmid : bookRun e plan view before s = .ok mid) : ¬stimulus.Latches plan view mid := by
  intro hlatch
  rw [hsplit] at hrun
  obtain ⟨reason, hreason⟩ := hok.work.latched (bookRun_latched hmid hlatch hrun)
  rw [huse] at hreason
  cases hreason

/-- A delivery of an accepted group carries its epoch. -/
theorem connectionEpoch_of_group {g : AtomicGroup} {cut : RiskCut} {d : FilteredDelivery}
    (h : e.group g = .ok (e', cut)) (hd : d ∈ g.deliveries) :
    ∃ epoch, d.connectionEpoch = some epoch := by
  obtain ⟨s, hloop, _⟩ := Except.bind_eq_ok.mp h
  obtain ⟨pre, post, hsplit⟩ := List.append_of_mem hd
  rw [hsplit, List.foldlM_append_eq_ok] at hloop
  obtain ⟨s₁, _, hloop⟩ := hloop
  obtain ⟨s₂, hdeliver, _⟩ := List.foldlM_cons_eq_ok.mp hloop
  obtain ⟨epoch, hepoch, _⟩ := Except.bind_eq_ok.mp hdeliver
  exact ⟨epoch, okOr_eq_ok.mp hepoch⟩

/-- A record of a group is among the market events of its cut. -/
theorem exists_market_of_group {g : AtomicGroup} {cut : RiskCut} {d : FilteredDelivery}
    {r : SegmentRecord} {b : BookEvent} (h : e.group g = .ok (e', cut)) (hd : d ∈ g.deliveries)
    (hr : r ∈ d.records) (hb : r.event = .book b) :
    ∃ m ∈ cut.marketEvents, m.reference = Reference.new g.pin r.header ∧ m.event = .book b := by
  have hmem : (Reference.new g.pin r.header, MarketEvent.book b) ∈
      cut.marketEvents.map MarketRecord.source := by
    rw [GroupSpec.market_eq h]
    refine List.mem_flatMap.mpr ⟨d, hd, List.mem_flatMap.mpr ⟨r, hr, ?_⟩⟩
    simp [hb, market, MarketRecord.source]
  obtain ⟨m, hm, hsource⟩ := List.mem_map.mp hmem
  obtain ⟨href, hevent⟩ := Prod.mk.inj hsource
  exact ⟨m, hm, href, hevent⟩

/-- What the end of a book's run in a group says about the group. -/
theorem group_heals {g : AtomicGroup} {cut : RiskCut} {view : BookView} (hok : e.Ok)
    (hplan : e.plans[k]? = some plan) (hview : e.books[k]? = some view)
    (hnot : view.validity ≠ .usable) (h : e.group g = .ok (e', cut)) (huse : e'.Usable k) :
    Heals e e' k plan view g cut := by
  obtain ⟨s, hspec⟩ := (group_meets hok.closed g).of_ok h
  have hrun := hspec.runs k plan view hplan hview
  have hview₀ := hok.view k plan view hplan hview
  have hend : StateOk e.limits plan view (s.book k plan) :=
    (groupRun_ok g ⟨WorkOk.new hview₀, by simp⟩).of_ok hrun
  obtain ⟨-, hepochs, -, -, -⟩ := hspec.commits.frame
  -- the end of the run is what was committed
  have hused : ((s.book k plan).work view).view.validity = .usable := by
    obtain ⟨v₁, hv₁, hvalid, -, -⟩ := hspec.view_eq plan hview
    obtain ⟨v₂, hv₂, hu⟩ := huse
    rw [hv₁] at hv₂
    obtain rfl := Option.some.inj hv₂
    rw [← hvalid, hu]
  have hfree : ∀ {stimulus}, stimulus ∈ plan.groupStimuli k g →
      (∀ mid, stimulus.Latches plan view mid) → False := by
    intro stimulus hmem hlatch
    obtain ⟨before, after, hsplit⟩ := List.append_of_mem hmem
    have hrun' := hrun
    rw [hsplit, bookRun, List.foldlM_append_eq_ok] at hrun'
    obtain ⟨mid, hmid, -⟩ := hrun'
    exact not_latches_of_usable hend hused hrun hsplit hmid (hlatch mid)
  -- a latching invalidation on the book's lane is one of the stimuli
  have hevent : ∀ d ∈ g.deliveries, d.lane = plan.lane → d.header.continuity ≠ .duplicate →
      ∀ r ∈ d.records, ∀ reason, Stimulus.invalidate reason true ∈ plan.eventStimuli k
        (Reference.new g.pin r.header) (d.connectionEpoch.getD "") r.event → False := by
    intro d hd hlane hdup r hr reason hmem
    have hheeds : plan.heeds d = true := heeds_iff.mpr ⟨hdup, hlane⟩
    exact hfree (event_mem_groupStimuli hd hheeds hr hmem) fun _ => rfl
  constructor
  case full =>
    obtain ⟨dep, hdep⟩ := Option.isSome_iff_exists.mp (hend.work.view.dependency_iff.mp hused)
    have hnone : view.dependency = none := by
      rw [← Option.not_isSome_iff_eq_none, ← hview₀.dependency_iff]
      exact hnot
    have hanchor : Anchored view [] ⟨e.epochs[plan.lane]?, none⟩ := by
      intro d₀ hd₀
      rw [show (BookState.work view ⟨_, none⟩).view = view from rfl, hnone] at hd₀
      cases hd₀
    obtain ⟨full, reference, hmem⟩ := bookRun_anchored hanchor hrun dep hdep
    obtain ⟨d, hd, hheeds, hepoch, r, hr, hb, hkey⟩ := full_of_mem_groupStimuli hmem
    obtain ⟨hdup, hlane⟩ := heeds_iff.mp hheeds
    obtain ⟨epoch, hsome⟩ := connectionEpoch_of_group h hd
    refine ⟨d, hd, hlane, hdup, by simp [hsome], ?_, r, hr, full, hb, hkey,
      exists_market_of_group h hd hr hb⟩
    have hcur : s.epochs[plan.lane]? = some dep.epoch := hend.work.view.epoch dep hdep
    rw [hsome, Option.getD_some] at hepoch
    rw [hepochs, hsome, hepoch]
    exact hcur
  case verdict =>
    intro d hd hlane
    have hbroken : d.header.continuity.broken = true → False := by
      intro hbroken
      have hdup : d.header.continuity ≠ .duplicate := by
        intro heq
        rw [heq] at hbroken
        cases hbroken
      exact hfree (source_mem_groupStimuli hd (heeds_iff.mpr ⟨hdup, hlane⟩)) fun _ => hbroken
    refine ⟨?_, ?_, ?_, ?_⟩ <;>
    · intro heq
      exact hbroken (by rw [heq]; rfl)
  case control =>
    intro d hd hlane hdup r hr
    constructor
    · intro heq
      exact hevent d hd hlane hdup r hr .connectionClosed (by rw [heq]; simp [BookPlan.eventStimuli,
        ControlEvent.reason])
    · intro heq
      exact hevent d hd hlane hdup r hr .connectionFailed (by rw [heq]; simp [BookPlan.eventStimuli,
        ControlEvent.reason])
  case fault =>
    intro d hd hlane hdup r hr impact heq
    cases hreach : plan.reached k impact with
    | false => rfl
    | true =>
      exact (hevent d hd hlane hdup r hr .unsupportedState
        (by rw [heq]; simp [BookPlan.eventStimuli, hreach])).elim
  case applied =>
    intro pre d post done r rest b s₁ hdeliveries hrecords hlane hdup hb hkey hbefore reason hfail
    have hheeds : plan.heeds d = true := heeds_iff.mpr ⟨hdup, hlane⟩
    have hmid := beforeRecord_book hok.closed hplan hview hheeds hbefore
    -- the record's own stimulus comes right after the stimuli before it
    have hsplit : plan.groupStimuli k g = stimuliBefore plan k g.pin pre d done ++
        .book b (Reference.new g.pin r.header) (d.connectionEpoch.getD "") ::
        ((rest.flatMap fun r => plan.eventStimuli k (Reference.new g.pin r.header)
          (d.connectionEpoch.getD "") r.event) ++ post.flatMap (plan.deliveryStimuli k g.pin)) := by
      rw [BookPlan.groupStimuli, hdeliveries, List.flatMap_append, List.flatMap_cons,
        BookPlan.deliveryStimuli_of_heeds hheeds, hrecords]
      simp [stimuliBefore, hb, BookPlan.eventStimuli, hkey]
    exact not_latches_of_usable hend hused hrun hsplit hmid ⟨reason, hfail⟩

/-- A window status brings no book into use. -/
theorem window_not_usable {status : WindowStatus} {cut : RiskCut} (hc : e.Closed)
    (hplan : e.plans[k]? = some plan) (hnot : ¬e.Usable k)
    (h : e.window status = .ok (e', cut)) : ¬e'.Usable k := by
  rintro ⟨v, hv, huse⟩
  obtain ⟨c, staged, hspec⟩ := (window_meets hc status).of_ok h
  obtain ⟨view, hview⟩ := hc.exists_view hplan
  have hstaged := hspec.staged_eq k plan view hplan hview
  cases hreason : blockReason c plan.lane with
  | none =>
    rw [hreason] at hstaged
    rw [hspec.commits.books_none hstaged] at hv
    exact hnot ⟨v, hv, huse⟩
  | some reason =>
    rw [hreason] at hstaged
    obtain ⟨old, t, _, _, hcommits, hnew⟩ := hspec.commits.books_some hstaged
    rw [hnew] at hv
    obtain rfl := Option.some.inj hv
    rw [hcommits.view] at huse
    cases huse

/-- In a run that brings a book into use, the first cut that does so is a healing group. -/
theorem run_heals {items : List WalkItem} {cuts : List RiskCut} (hok : e.Ok)
    (hplan : e.plans[k]? = some plan) (hnot : ¬e.Usable k) (h : e.run items = .ok (e', cuts))
    (huse : e'.Usable k) :
    ∃ pre g post e₁ cuts₁ e₂ cut view, items = pre ++ .group g :: post ∧
      e.run pre = .ok (e₁, cuts₁) ∧ e₁.group g = .ok (e₂, cut) ∧
      (∀ q eq cutsq, q <+: pre → e.run q = .ok (eq, cutsq) → ¬eq.Usable k) ∧ e₂.Usable k ∧
      e₁.books[k]? = some view ∧ Heals e₁ e₂ k plan view g cut := by
  induction items generalizing e cuts with
  | nil =>
    obtain ⟨rfl, -⟩ := Prod.mk.inj (Except.ok.inj h)
    exact absurd huse hnot
  | cons item items ih =>
    obtain ⟨⟨e₁, cut₁⟩, hitem, h⟩ := Except.bind_eq_ok.mp h
    obtain ⟨⟨e₂, cuts₂⟩, hrun, h⟩ := Except.bind_eq_ok.mp h
    obtain ⟨rfl, -⟩ := Prod.mk.inj (Except.ok.inj h)
    by_cases hfirst : e₁.Usable k
    · -- the first item already heals the book
      cases item with
      | windowStatus status =>
        exact absurd hfirst (window_not_usable hok.closed hplan hnot hitem)
      | group g =>
        obtain ⟨view, hview⟩ := hok.closed.exists_view hplan
        have hv : view.validity ≠ .usable := fun hv => hnot ⟨view, hview, hv⟩
        refine ⟨[], g, items, e, [], e₁, cut₁, view, rfl, rfl, hitem, ?_, hfirst, hview,
          group_heals hok hplan hview hv hitem hfirst⟩
        intro q eq cutsq hq hrunq
        obtain rfl := List.prefix_nil.mp hq
        obtain ⟨rfl, -⟩ := Prod.mk.inj (Except.ok.inj hrunq)
        exact hnot
    · have hok₁ : e₁.Ok := (nextInner_ok hok item).of_ok hitem
      have hplan₁ : e₁.plans[k]? = some plan := by
        rw [nextInner_plans hok.closed hitem]
        exact hplan
      obtain ⟨pre, g, post, e₃, cuts₃, e₄, cut₄, view, rfl, hpre, hgroup, hbefore, hused, hview,
        hheals⟩ := ih hok₁ hplan₁ hfirst hrun
      refine ⟨item :: pre, g, post, e₃, cut₁ :: cuts₃, e₄, cut₄, view, rfl, ?_, hgroup, ?_, hused,
        hview, hheals⟩
      · simp only [run, hitem, Except.ok_bind, hpre]
        rfl
      · intro q eq cutsq hq hrunq
        rcases List.prefix_cons_iff.mp hq with rfl | ⟨q', rfl, hq'⟩
        · obtain ⟨rfl, -⟩ := Prod.mk.inj (Except.ok.inj hrunq)
          exact hnot
        · simp only [run, hitem, Except.ok_bind] at hrunq
          obtain ⟨⟨e₅, cuts₅⟩, hrun₅, hrunq⟩ := Except.bind_eq_ok.mp hrunq
          obtain ⟨rfl, -⟩ := Prod.mk.inj (Except.ok.inj hrunq)
          exact hbefore q' e₅ cuts₅ hq' hrun₅

/-- A lane that a window status reports against keeps its books unusable until the next window
    status, whatever the groups hold; and a book that is not usable comes back, if at all, in a
    group with its Full and without a latching cause. -/
theorem usable_only_after_full (h : Reachable e) (hplan : e.plans[k]? = some plan) :
    (∀ status c e₁ cut (groups : List AtomicGroup) e₂ cuts, status.coverage = some c →
      LaneFaulty c plan.lane → e.window status = .ok (e₁, cut) →
      e₁.run (groups.map .group) = .ok (e₂, cuts) → e₂.Unusable k) ∧
    (¬e.Usable k → ∀ items e' cuts, e.run items = .ok (e', cuts) → e'.Usable k →
      ∃ pre g post e₁ cuts₁ e₂ cut view, items = pre ++ .group g :: post ∧
        e.run pre = .ok (e₁, cuts₁) ∧ e₁.group g = .ok (e₂, cut) ∧
        (∀ q eq cutsq, q <+: pre → e.run q = .ok (eq, cutsq) → ¬eq.Usable k) ∧ e₂.Usable k ∧
        e₁.books[k]? = some view ∧ Heals e₁ e₂ k plan view g cut) := by
  constructor
  · intro status c e₁ cut groups e₂ cuts hcov hfaulty hwindow hrun
    have hb := run_groups_blocked (window_blocked h.ok.closed hwindow hcov hplan hfaulty) hrun
    refine hb.unusable k plan ?_ rfl
    have hwin : e.nextInner (.windowStatus status) = .ok (e₁, cut) := hwindow
    have hok₁ : e₁.Ok := (nextInner_ok h.ok _).of_ok hwin
    rw [run_plans hok₁ hrun, nextInner_plans h.ok.closed hwin]
    exact hplan
  · intro hnot items e' cuts hrun huse
    exact run_heals h.ok hplan hnot hrun huse

/-- A window status whose coverage does not name the sample lane. -/
def sampleOutage : WindowStatus := ⟨⟨"derivative", "receipt"⟩, 0, 100, some ⟨∅, []⟩⟩

theorem sampleOutage_faulty : LaneFaulty ⟨∅, []⟩ sampleLane := by
  left
  simp [CoverageEvidence.lane]

/-- The sample book stays out of use over an outage with a Full in it, and comes into use by
    the same Full without the outage. -/
theorem usable_only_after_full_sample :
    (∃ e e₁ e₂ : RiskEngine, ∃ cut cuts, Reachable e ∧
      e.window sampleOutage = .ok (e₁, cut) ∧
      e₁.run [.group sampleFullGroup] = .ok (e₂, cuts) ∧ e₂.Unusable sampleKey) ∧
    ∃ e e' : RiskEngine, ∃ cuts, Reachable e ∧ ¬e.Usable sampleKey ∧
      e.run [.group sampleFullGroup] = .ok (e', cuts) ∧ e'.Usable sampleKey ∧
      ∃ g e₁ e₂ view cut, Heals e₁ e₂ sampleKey samplePlan view g cut := by
  -- one evaluation: the plan, the blocked run and the healed run of a fresh engine
  obtain ⟨e, hreach, he⟩ := exists_reachable_of_sampleRun []
    (fun e => e.plans[sampleKey]? = some samplePlan &&
      (e.view sampleKey).all (·.validity ≠ .usable) &&
      (e.window sampleOutage).toOption.any (fun r =>
        (r.1.run [.group sampleFullGroup]).toOption.isSome) &&
      (e.run [.group sampleFullGroup]).toOption.any (fun r =>
        (r.1.view sampleKey).any (·.validity = .usable))) (by decide +kernel)
  simp only [Bool.and_eq_true, decide_eq_true_eq] at he
  obtain ⟨⟨⟨hplan, hfresh⟩, hblocked⟩, hhealed⟩ := he
  have hmain := usable_only_after_full hreach hplan
  have hnot : ¬e.Usable sampleKey := by
    rintro ⟨v, hv, huse⟩
    simp [view, hv, huse] at hfresh
  constructor
  · cases hwin : e.window sampleOutage with
    | error halt => simp [hwin, Except.toOption] at hblocked
    | ok r =>
      cases hrun : r.1.run [.group sampleFullGroup] with
      | error halt => simp [hwin, hrun, Except.toOption] at hblocked
      | ok r₂ =>
        exact ⟨e, r.1, r₂.1, r.2, r₂.2, hreach, hwin, hrun,
          hmain.1 sampleOutage _ r.1 r.2 [sampleFullGroup] r₂.1 r₂.2 rfl sampleOutage_faulty
            hwin hrun⟩
  · cases hrun : e.run [.group sampleFullGroup] with
    | error halt => simp [hrun, Except.toOption] at hhealed
    | ok r =>
      have huse : r.1.Usable sampleKey := by
        simpa [hrun, Except.toOption, Option.any_eq_true, view, Usable] using hhealed
      obtain ⟨_, g, _, e₁, _, e₂, cut, view, _, _, _, _, _, _, hheals⟩ :=
        hmain.2 hnot _ r.1 r.2 hrun huse
      exact ⟨e, r.1, r.2, hreach, hnot, hrun, huse, g, e₁, e₂, view, cut, hheals⟩

end RiskEngine

end PredictionIndexer.Engine
